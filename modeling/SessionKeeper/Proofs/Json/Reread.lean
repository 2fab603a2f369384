import SessionKeeper.Proofs.Json.Fits
import SessionKeeper.Proofs.Json.Float
import SessionKeeper.Proofs.Json.Surrogate
import SessionKeeper.Record.Document

/-!
# Reading printed documents back

The reader undoes the printer except for two things that a document cannot carry:
neighbouring surrogates of a pair come back as one character, and of two members that
then have the same name only the first place and the last value remain. Floating point
numbers have to be canonical, as all those are that come from a document.
-/
namespace SessionKeeper.Json

mutual

/-- The value that comes back when the printed form is read. -/
def reread : Json → Json
  | .str t => .str t.rejoin
  | .arr items => .arr (rereadItems items)
  | .obj members => .obj (Assoc.ofPairs (rereadMembers members))
  | .null => .null
  | .bool b => .bool b
  | .int n => .int n
  | .float x => .float x

def rereadItems : List Json → List Json
  | [] => []
  | item :: rest => reread item :: rereadItems rest

/-- The members that come back, before repeated names are merged. -/
def rereadMembers : List (Text × Json) → List (Text × Json)
  | [] => []
  | (name, value) :: rest => (name.rejoin, reread value) :: rereadMembers rest

end

mutual

/-- Whether every floating point number in the value is canonical. -/
def isCanonical : Json → Bool
  | .float x => decide x.IsCanonical
  | .arr items => areCanonical items
  | .obj members => memberValuesCanonical members
  | _ => true

/-- Whether all values hold canonical numbers only. -/
def areCanonical : List Json → Bool
  | [] => true
  | item :: rest => isCanonical item && areCanonical rest

/-- Whether the values of all members hold canonical numbers only. -/
def memberValuesCanonical : List (Text × Json) → Bool
  | [] => true
  | (_, value) :: rest => isCanonical value && memberValuesCanonical rest

end

theorem skipGap_lineBreak (level : Nat) (t : Text) :
    skipGap (Text.ofChars (lineBreak level) ++ t) = skipGap t := by
  have all : ∀ p ∈ Text.ofChars (lineBreak level), isGap p = true := by
    intro p hp
    obtain ⟨c, hc, rfl⟩ := List.mem_map.mp hp
    rcases List.mem_cons.mp hc with rfl | hc
    · rfl
    · rw [(List.mem_replicate.mp hc).2]
      rfl
  rw [skipGap, List.dropWhile_append_of_pos all, skipGap]

theorem skipGap_cons (p : Point) (t : Text) (h : isGap p = false) : skipGap (p :: t) = p :: t := by
  rw [skipGap, List.dropWhile_cons_of_neg (by simp [h])]

theorem endsNumber_lineBreak (level : Nat) (t : Text) :
    EndsNumber (Text.ofChars (lineBreak level) ++ t) := Or.inr rfl

theorem endsNumber_comma (t : Text) : EndsNumber (.char ',' :: t) := Or.inl rfl

theorem readWord?_digit (c : Char) (hc : c.isDigit = true) (rest : Text) :
    readWord? (.char c :: rest) = none := by
  rw [readWord?, List.findSome?_eq_none_iff]
  intro w hw
  have differ : ∀ d : Char, d.isDigit = false → (Point.char d == Point.char c) = false := by
    intro d hd
    rw [beq_eq_false_iff_ne]
    rintro hdc
    rw [(Point.char.inj hdc), hc] at hd
    exact absurd hd (by decide)
  simp only [wordValues, List.mem_cons, List.not_mem_nil, or_false] at hw
  rcases hw with rfl | rfl | rfl | rfl | rfl | rfl <;>
    simp [Text.startsWith, Text.ofString, List.isPrefixOf, differ]

theorem readWord?_minus (c : Char) (hc : c.isDigit = true) (rest : Text) :
    readWord? (.char '-' :: .char c :: rest) = none := by
  rw [readWord?, List.findSome?_eq_none_iff]
  intro w hw
  have differ : (Point.char 'I' == Point.char c) = false := by
    rw [beq_eq_false_iff_ne]
    rintro hdc
    rw [← (Point.char.inj hdc)] at hc
    exact absurd hc (by decide)
  simp only [wordValues, List.mem_cons, List.not_mem_nil, or_false] at hw
  rcases hw with rfl | rfl | rfl | rfl | rfl | rfl <;>
    simp [Text.startsWith, Text.ofString, List.isPrefixOf, differ]

theorem exists_toDigits_cons (n : Nat) :
    ∃ c cs, Nat.toDigits 10 n = c :: cs ∧ c.isDigit = true := by
  cases h : Nat.toDigits 10 n with
  | nil => exact absurd h Nat.toDigits_ne_nil
  | cons c cs => exact ⟨c, cs, rfl, Numeral.isDigit_toDigits n c (by simp [h])⟩

/-- An integer of at most 4300 digits is read back. -/
theorem readScalar_int (n : Int) (hn : n.natAbs < digitLimit) (rest : Text) (h : EndsNumber rest) :
    readScalar (Text.ofChars (toString n).toList ++ rest) = .ok (.int n, rest) := by
  rw [Int.toString_eq_repr, Int.repr_eq_if]
  split_ifs with hs
  · rw [Nat.toList_repr]
    obtain ⟨c, cs, hd, hc⟩ := exists_toDigits_cons n.toNat
    have hread := readUnsigned_toDigits false n.toNat (by omega) rest h
    rw [hd] at hread ⊢
    have ht : Text.ofChars (c :: cs) ++ rest = .char c :: (Text.ofChars cs ++ rest) := rfl
    rw [readScalar]
    · rw [ht, readWord?_digit c hc, ← ht, hread]
      simp [Int.toNat_of_nonneg hs]
    · intro more hm
      rw [ht] at hm
      rw [Point.char.inj (List.cons.inj hm).1] at hc
      exact absurd hc (by decide)
  · have hl : ("-" ++ (-n).toNat.repr).toList = '-' :: Nat.toDigits 10 (-n).toNat := by
      rw [String.toList_append, Nat.toList_repr]
      rfl
    rw [hl]
    obtain ⟨c, cs, hd, hc⟩ := exists_toDigits_cons (-n).toNat
    have hread := readUnsigned_toDigits true (-n).toNat (by omega) rest h
    rw [hd] at hread ⊢
    have ht : Text.ofChars ('-' :: c :: cs) ++ rest =
        .char '-' :: .char c :: (Text.ofChars cs ++ rest) := rfl
    have hminus : readScalar (Text.ofChars ('-' :: c :: cs) ++ rest) =
        readUnsigned true (Text.ofChars (c :: cs) ++ rest) := by
      rw [ht, readScalar.eq_def, readWord?_minus c hc]
      rfl
    rw [hminus, hread]
    have hv : -(((-n).toNat : Nat) : Int) = n := by omega
    rw [if_pos rfl, hv]

theorem readName_printText (name : Text) (rest : Text) (h : skipGap rest = rest) :
    readName (Text.ofChars (printText name ++ [':', ' ']) ++ rest) = .ok (name.rejoin, rest) := by
  have hs : Text.ofChars (printText name ++ [':', ' ']) ++ rest = .char '\x22' ::
      (Text.ofChars (escapeText name) ++ .char quote :: (.char ':' :: .char ' ' :: rest)) := by
    simp [printText, Text.ofChars, quote]
  have hg : skipGap (.char ' ' :: rest) = rest := by
    rw [skipGap, List.dropWhile_cons_of_pos rfl]
    exact h
  rw [hs, readName]
  simp only [readText_escapeText, bind, Except.bind]
  rw [skipGap_cons (.char ':') _ rfl]
  simp only [hg]

theorem exists_int_cons (n : Int) :
    ∃ c cs, (toString n).toList = c :: cs ∧ (c.isDigit = true ∨ c = '-') := by
  rw [Int.toString_eq_repr, Int.repr_eq_if]
  split_ifs with hs
  · rw [Nat.toList_repr]
    obtain ⟨c, cs, hd, hc⟩ := exists_toDigits_cons n.toNat
    exact ⟨c, cs, hd, Or.inl hc⟩
  · refine ⟨'-', Nat.toDigits 10 (-n).toNat, ?_, Or.inr rfl⟩
    rw [String.toList_append, Nat.toList_repr]
    rfl

/-- What begins a number begins no text, array or object, and is no gap. -/
theorem ne_of_begins_number {c d : Char} (hc : c.isDigit = true ∨ c = '-')
    (hd : d.isDigit = false ∧ d ≠ '-') : c ≠ d := by
  rintro rfl
  rcases hc with hc | hc
  · rw [hd.1] at hc
    exact absurd hc (by decide)
  · exact hd.2 hc

theorem isGap_of_begins_number {c : Char} (h : c.isDigit = true ∨ c = '-') :
    isGap (.char c) = false := by
  have h1 := ne_of_begins_number (d := ' ') h (by decide)
  have h2 := ne_of_begins_number (d := '\t') h (by decide)
  have h3 := ne_of_begins_number (d := '\n') h (by decide)
  have h4 := ne_of_begins_number (d := '\r') h (by decide)
  simp [isGap, h1, h2, h3, h4]

/-- A printed finite number begins with a digit or a minus sign. -/
theorem exists_finite_cons {negative : Bool} {significand : Nat} {exponent : Int}
    (h : (Double.finite negative significand exponent).IsCanonical) :
    ∃ c cs, printDouble (.finite negative significand exponent) = c :: cs ∧
      (c.isDigit = true ∨ c = '-') := by
  cases negative with
  | true => exact ⟨_, _, rfl, Or.inr rfl⟩
  | false =>
    obtain ⟨c, cs, hc, hd⟩ := exists_magnitudeText_cons h
    exact ⟨c, cs, hc, Or.inl hd⟩

theorem readScalar_finite {negative : Bool} {significand : Nat} {exponent : Int}
    (h : (Double.finite negative significand exponent).IsCanonical) {rest : Text}
    (he : EndsNumber rest) :
    readScalar (Text.ofChars (printDouble (.finite negative significand exponent)) ++ rest) =
      .ok (.float (.finite negative significand exponent), rest) := by
  have hread := readUnsigned_magnitudeText h he
  obtain ⟨c, cs, hc, hd⟩ := exists_magnitudeText_cons h
  rw [hc] at hread
  cases negative with
  | true =>
    have ht : Text.ofChars (printDouble (.finite true significand exponent)) ++ rest =
        .char '-' :: .char c :: (Text.ofChars cs ++ rest) := by
      rw [printDouble]
      simp only [hc]
      rfl
    rw [ht, readScalar.eq_def, readWord?_minus c hd]
    exact hread
  | false =>
    have ht : Text.ofChars (printDouble (.finite false significand exponent)) ++ rest =
        .char c :: (Text.ofChars cs ++ rest) := by
      rw [printDouble]
      simp only [hc]
      rfl
    rw [ht, readScalar]
    · rw [readWord?_digit c hd]
      exact hread
    · intro more hm
      rw [Point.char.inj (List.cons.inj hm).1] at hd
      exact absurd hd (by decide)

/-- A printed value begins neither with a gap nor like the end of an array. -/
theorem exists_printAt_cons (level : Nat) (v : Json) (hf : v.isCanonical = true) :
    ∃ c cs, printAt level v = c :: cs ∧ isGap (.char c) = false ∧ c ≠ ']' := by
  match v with
  | .null => exact ⟨_, _, rfl, by decide, by decide⟩
  | .bool true => exact ⟨_, _, rfl, by decide, by decide⟩
  | .bool false => exact ⟨_, _, rfl, by decide, by decide⟩
  | .float .nan => exact ⟨_, _, rfl, by decide, by decide⟩
  | .float (.infinity true) => exact ⟨_, _, rfl, by decide, by decide⟩
  | .float (.infinity false) => exact ⟨_, _, rfl, by decide, by decide⟩
  | .float (.finite _ _ _) =>
    obtain ⟨c, cs, hc, hd⟩ := exists_finite_cons (of_decide_eq_true hf)
    exact ⟨c, cs, hc, isGap_of_begins_number hd, ne_of_begins_number hd (by decide)⟩
  | .str t => exact ⟨quote, escapeText t ++ [quote], rfl, by decide, by decide⟩
  | .arr [] => exact ⟨_, _, rfl, by decide, by decide⟩
  | .arr (item :: rest) => exact ⟨_, _, rfl, by decide, by decide⟩
  | .obj [] => exact ⟨_, _, rfl, by decide, by decide⟩
  | .obj ((name, value) :: rest) => exact ⟨_, _, rfl, by decide, by decide⟩
  | .int n =>
    obtain ⟨c, cs, hc, hd⟩ := exists_int_cons n
    exact ⟨c, cs, hc, isGap_of_begins_number hd, ne_of_begins_number hd (by decide)⟩

theorem skipGap_printAt (level : Nat) (v : Json) (hf : v.isCanonical = true) (rest : Text) :
    skipGap (Text.ofChars (printAt level v) ++ rest) = Text.ofChars (printAt level v) ++ rest := by
  obtain ⟨c, cs, hc, hg, -⟩ := exists_printAt_cons level v hf
  rw [hc]
  exact skipGap_cons (.char c) (Text.ofChars cs ++ rest) hg

/-- Fuel for the printed form of a value is enough for one step. -/
theorem exists_fuel_succ {level fuel : Nat} (v : Json) (hf : v.isCanonical = true)
    (hl : (printAt level v).length ≤ fuel) : ∃ f, fuel = f + 1 := by
  obtain ⟨c, cs, hc, -⟩ := exists_printAt_cons level v hf
  rw [hc, List.length_cons] at hl
  exact ⟨fuel - 1, by omega⟩

theorem readWord?_word (w : String × Json) (hw : w ∈ wordValues) (rest : Text) :
    readWord? (Text.ofString w.1 ++ rest) = some (w.2, rest) := by
  simp only [wordValues, List.mem_cons, List.not_mem_nil, or_false] at hw
  rcases hw with rfl | rfl | rfl | rfl | rfl | rfl <;>
    (simp [readWord?, wordValues, Text.startsWith, Text.ofString]; rfl)

theorem readScalar_word (w : String × Json) (hw : w ∈ wordValues) (rest : Text) :
    readScalar (Text.ofString w.1 ++ rest) = .ok (w.2, rest) := by
  rw [readScalar.eq_def, readWord?_word w hw]

/-- What begins with none of the characters that open a text, an array or an object is read as
a word or a number. -/
theorem readValue_scalar (room fuel : Nat) (c : Char) (rest : Text)
    (hc : c ≠ '\x22' ∧ c ≠ '[' ∧ c ≠ '\x7b') :
    readValue room (fuel + 1) (.char c :: rest) = readScalar (.char c :: rest) := by
  rw [readValue] <;> simp [hc]

theorem areCanonical_mem {items : List Json} (hf : areCanonical items = true) :
    ∀ v ∈ items, v.isCanonical = true := by
  induction items with
  | nil => simp
  | cons item items ih =>
    rw [areCanonical, Bool.and_eq_true] at hf
    intro v hv
    rcases List.mem_cons.mp hv with rfl | hv
    · exact hf.1
    · exact ih hf.2 v hv

theorem memberValuesCanonical_mem {members : List (Text × Json)}
    (hf : memberValuesCanonical members = true) : ∀ m ∈ members, m.2.isCanonical = true := by
  induction members with
  | nil => simp
  | cons member members ih =>
    obtain ⟨name, value⟩ := member
    rw [memberValuesCanonical, Bool.and_eq_true] at hf
    intro m hm
    rcases List.mem_cons.mp hm with rfl | hm
    · exact hf.1
    · exact ih hf.2 m hm

/-- That the printed form of a value is read back where there is room for it, whatever follows it
that does not go on a number. -/
def ReadsBack (v : Json) : Prop :=
  ∀ room level fuel rest, v.fits room = true → EndsNumber rest → (printAt level v).length ≤ fuel →
    readValue room fuel (Text.ofChars (printAt level v) ++ rest) = .ok (v.reread, rest)

theorem readsBack_text (t : Text) : ReadsBack (.str t) := by
  intro room level fuel rest hp he hl
  obtain ⟨f, rfl⟩ := exists_fuel_succ (.str t) rfl hl
  have hs : Text.ofChars (printAt level (.str t)) ++ rest =
      .char '\x22' :: (Text.ofChars (escapeText t) ++ .char quote :: rest) := by
    simp [printAt, printText, Text.ofChars, quote]
  rw [hs, readValue]
  simp only [readText_escapeText, bind, Except.bind]
  rfl

theorem readsBack_number (v : Json) (hv : v.reread = v)
    (begins : ∀ level, ∃ c cs, printAt level v = c :: cs ∧ (c.isDigit = true ∨ c = '-'))
    (read : ∀ room level rest, v.fits room = true → EndsNumber rest →
      readScalar (Text.ofChars (printAt level v) ++ rest) = .ok (v, rest)) : ReadsBack v := by
  intro room level fuel rest hp he hl
  have h := read room level rest hp he
  obtain ⟨c, cs, hc, hd⟩ := begins level
  rw [hc] at h hl ⊢
  obtain ⟨f, rfl⟩ : ∃ f, fuel = f + 1 := ⟨fuel - 1, by simp only [List.length_cons] at hl; omega⟩
  have ho := And.intro (ne_of_begins_number (d := '\x22') hd (by decide))
    (And.intro (ne_of_begins_number (d := '[') hd (by decide))
      (ne_of_begins_number (d := '\x7b') hd (by decide)))
  rw [hv]
  exact (readValue_scalar room f c _ ho).trans h

theorem readsBack_int (n : Int) : ReadsBack (.int n) :=
  readsBack_number (.int n) rfl (fun _ => exists_int_cons n) fun _ _ rest hp he =>
    readScalar_int n (fits_int.mp hp) rest he

/-- A value that is printed as a word is read back, since no word begins like a text, an array
or an object. -/
theorem readsBack_word (v : Json) (w : String) (c : Char) (cs : List Char)
    (hw : (w, v) ∈ wordValues) (hs : w.toList = c :: cs)
    (hc : c ≠ '\x22' ∧ c ≠ '[' ∧ c ≠ '\x7b')
    (hv : ∀ level, printAt level v = w.toList) (hr : v.reread = v) : ReadsBack v := by
  intro room level fuel rest hp he hl
  have h := readScalar_word (w, v) hw rest
  rw [Text.ofString, hs] at h
  rw [hv, hs] at hl
  obtain ⟨f, rfl⟩ : ∃ f, fuel = f + 1 := ⟨fuel - 1, by simp only [List.length_cons] at hl; omega⟩
  rw [hv, hs, hr]
  exact (readValue_scalar room f c _ hc).trans h

theorem readsBack_float : ∀ x : Double, x.IsCanonical → ReadsBack (.float x)
  | .nan, _ => readsBack_word (.float .nan) "NaN" 'N' ['a', 'N'] (by simp [wordValues]) rfl
      (by decide) (fun _ => rfl) rfl
  | .infinity false, _ => readsBack_word (.float (.infinity false)) "Infinity" 'I'
      ['n', 'f', 'i', 'n', 'i', 't', 'y'] (by simp [wordValues]) rfl (by decide) (fun _ => rfl) rfl
  | .infinity true, _ => readsBack_word (.float (.infinity true)) "-Infinity" '-'
      ['I', 'n', 'f', 'i', 'n', 'i', 't', 'y'] (by simp [wordValues]) rfl (by decide)
      (fun _ => rfl) rfl
  | .finite _ _ _, h => readsBack_number _ rfl (fun _ => exists_finite_cons h)
      fun _ _ _ _ he => readScalar_finite h he

theorem readItems_printItems {room : Nat} (item : Json) (items : List Json)
    (level outer fuel : Nat) (rest : Text) (ih : ∀ v ∈ item :: items, ReadsBack v)
    (hf : areCanonical (item :: items) = true) (hp : ∀ v ∈ item :: items, v.fits room = true)
    (hl : (printAt level item ++ printItems level items).length < fuel) :
    readItems room fuel (Text.ofChars (printAt level item) ++
      (Text.ofChars (printItems level items) ++
        (Text.ofChars (lineBreak outer) ++ .char ']' :: rest))) =
      .ok (reread item :: rereadItems items, rest) := by
  -- The fuel bounds the length of what is left to read, so each item has enough of it in turn.
  induction items generalizing item fuel with
  | nil =>
    rw [List.length_append] at hl
    obtain ⟨f, rfl⟩ : ∃ f, fuel = f + 1 := ⟨fuel - 1, by omega⟩
    have hv := ih item List.mem_cons_self room level f (Text.ofChars (lineBreak outer) ++
      .char ']' :: rest) (hp item List.mem_cons_self) (endsNumber_lineBreak _ _) (by omega)
    have hs : Text.ofChars (printItems level []) ++ (Text.ofChars (lineBreak outer) ++
        .char ']' :: rest) = Text.ofChars (lineBreak outer) ++ .char ']' :: rest := rfl
    rw [hs, readItems]
    simp only [hv, bind, Except.bind]
    rw [skipGap_lineBreak, skipGap_cons _ _ rfl]
    rfl
  | cons next more step =>
    rw [areCanonical, Bool.and_eq_true] at hf
    have hnext := hf.2
    rw [areCanonical, Bool.and_eq_true] at hnext
    obtain ⟨f, rfl⟩ : ∃ f, fuel = f + 1 := ⟨fuel - 1, by omega⟩
    have hs : Text.ofChars (printItems level (next :: more)) ++ (Text.ofChars (lineBreak outer) ++
        .char ']' :: rest) = .char ',' :: (Text.ofChars (lineBreak level) ++
          (Text.ofChars (printAt level next) ++ (Text.ofChars (printItems level more) ++
            (Text.ofChars (lineBreak outer) ++ .char ']' :: rest)))) := by
      simp [printItems, Text.ofChars]
    have hlen : (printAt level next ++ printItems level more).length < f := by
      simp only [printItems, List.length_append, List.length_cons] at hl ⊢
      omega
    have hmore := step next f (fun v hv => ih v (List.mem_cons_of_mem _ hv)) hf.2
      (fun v hv => hp v (List.mem_cons_of_mem _ hv)) hlen
    rw [List.length_append] at hl
    have hv (t : Text) := ih item List.mem_cons_self room level f (.char ',' :: t)
      (hp item List.mem_cons_self) (endsNumber_comma t) (by omega)
    rw [hs, readItems]
    simp only [hv, bind, Except.bind]
    rw [skipGap_cons _ _ rfl]
    simp only [skipGap_lineBreak, skipGap_printAt level next hnext.1]
    rw [hmore]
    rfl

theorem skipGap_printText (name : Text) (t : Text) :
    skipGap (Text.ofChars (printText name ++ [':', ' ']) ++ t) =
      Text.ofChars (printText name ++ [':', ' ']) ++ t := skipGap_cons (.char quote) _ rfl

theorem readMembers_printMembers {room : Nat} (name : Text) (value : Json)
    (members : List (Text × Json)) (level outer fuel : Nat) (rest : Text)
    (ih : ∀ member ∈ (name, value) :: members, ReadsBack member.2)
    (hf : memberValuesCanonical ((name, value) :: members) = true)
    (hp : ∀ member ∈ (name, value) :: members, member.2.fits room = true)
    (hl : (printText name ++ [':', ' '] ++ printAt level value ++
      printMembers level members).length < fuel) :
    readMembers room fuel (Text.ofChars (printText name ++ [':', ' ']) ++
      (Text.ofChars (printAt level value) ++ (Text.ofChars (printMembers level members) ++
        (Text.ofChars (lineBreak outer) ++ .char '\x7d' :: rest)))) =
      .ok ((name.rejoin, reread value) :: rereadMembers members, rest) := by
  induction members generalizing name value fuel with
  | nil =>
    rw [memberValuesCanonical, Bool.and_eq_true] at hf
    simp only [List.length_append] at hl
    obtain ⟨f, rfl⟩ : ∃ f, fuel = f + 1 := ⟨fuel - 1, by omega⟩
    have hv := ih (name, value) List.mem_cons_self room level f (Text.ofChars (lineBreak outer) ++
      .char '\x7d' :: rest) (hp _ List.mem_cons_self) (endsNumber_lineBreak _ _)
      (by simp only; omega)
    have hs : Text.ofChars (printMembers level []) ++ (Text.ofChars (lineBreak outer) ++
        .char '\x7d' :: rest) = Text.ofChars (lineBreak outer) ++ .char '\x7d' :: rest := rfl
    rw [hs, readMembers]
    simp only [readName_printText _ _ (skipGap_printAt level value hf.1 _), hv, bind, Except.bind]
    rw [skipGap_lineBreak, skipGap_cons _ _ rfl]
    rfl
  | cons member members step =>
    obtain ⟨next, after⟩ := member
    rw [memberValuesCanonical, Bool.and_eq_true] at hf
    obtain ⟨f, rfl⟩ : ∃ f, fuel = f + 1 := ⟨fuel - 1, by omega⟩
    have hs : Text.ofChars (printMembers level ((next, after) :: members)) ++
        (Text.ofChars (lineBreak outer) ++ .char '\x7d' :: rest) = .char ',' ::
          (Text.ofChars (lineBreak level) ++ (Text.ofChars (printText next ++ [':', ' ']) ++
            (Text.ofChars (printAt level after) ++ (Text.ofChars (printMembers level members) ++
              (Text.ofChars (lineBreak outer) ++ .char '\x7d' :: rest))))) := by
      simp [printMembers, Text.ofChars]
    have hlen : (printText next ++ [':', ' '] ++ printAt level after ++
        printMembers level members).length < f := by
      simp only [printMembers, List.length_append, List.length_cons] at hl ⊢
      omega
    have hmore := step next after f (fun m hm => ih m (List.mem_cons_of_mem _ hm)) hf.2
      (fun m hm => hp m (List.mem_cons_of_mem _ hm)) hlen
    simp only [List.length_append] at hl
    have hv (t : Text) := ih (name, value) List.mem_cons_self room level f (.char ',' :: t)
      (hp _ List.mem_cons_self) (endsNumber_comma t) (by simp only; omega)
    rw [hs, readMembers]
    simp only [readName_printText _ _ (skipGap_printAt level value hf.1 _), hv, bind, Except.bind]
    rw [skipGap_cons _ _ rfl]
    simp only [skipGap_lineBreak, skipGap_printText]
    rw [hmore]
    rfl

theorem readsBack_arr_nil : ReadsBack (.arr []) := by
  intro room level fuel rest hp he hl
  obtain ⟨room, rfl⟩ := exists_room_of_arr hp
  obtain ⟨f, rfl⟩ := exists_fuel_succ (.arr []) rfl hl
  have hs : Text.ofChars (printAt level (.arr [])) ++ rest = .char '[' :: .char ']' :: rest := rfl
  rw [hs, readValue, skipGap_cons (.char ']') _ rfl]
  rfl

theorem readsBack_obj_nil : ReadsBack (.obj []) := by
  intro room level fuel rest hp he hl
  obtain ⟨room, rfl⟩ := exists_room_of_obj hp
  obtain ⟨f, rfl⟩ := exists_fuel_succ (.obj []) rfl hl
  have hs : Text.ofChars (printAt level (.obj [])) ++ rest =
      .char '\x7b' :: .char '\x7d' :: rest := rfl
  rw [hs, readValue, skipGap_cons (.char '\x7d') _ rfl]
  rfl

/-- An array that is not empty is read back when its items are: its first item does not begin
like the end of the array. -/
theorem readsBack_arr_cons (item : Json) (items : List Json)
    (hf : areCanonical (item :: items) = true) (ih : ∀ v ∈ item :: items, ReadsBack v) :
    ReadsBack (.arr (item :: items)) := by
  intro room level fuel rest hp he hl
  have hfirst := areCanonical_mem hf item List.mem_cons_self
  obtain ⟨room, rfl⟩ := exists_room_of_arr hp
  obtain ⟨f, rfl⟩ := exists_fuel_succ (.arr (item :: items)) hf hl
  have hs : Text.ofChars (printAt level (.arr (item :: items))) ++ rest = .char '[' ::
      (Text.ofChars (lineBreak (level + 1)) ++ (Text.ofChars (printAt (level + 1) item) ++
        (Text.ofChars (printItems (level + 1) items) ++
          (Text.ofChars (lineBreak level) ++ .char ']' :: rest)))) := by
    simp [printAt, Text.ofChars]
  have hlen : (printAt (level + 1) item ++ printItems (level + 1) items).length < f := by
    simp only [printAt, List.length_append, List.length_cons, List.length_nil] at hl ⊢
    omega
  have hitems := readItems_printItems item items (level + 1) level f rest ih hf
    ((fits_arr _).mp hp) hlen
  obtain ⟨c, cs, hc, -, hne⟩ := exists_printAt_cons (level + 1) item hfirst
  rw [hs, readValue, skipGap_lineBreak, skipGap_printAt _ _ hfirst]
  split
  · rename_i more hm
    rw [hc] at hm
    exact absurd (Point.char.inj (List.cons.inj hm).1) hne
  · rw [hitems]
    rfl

theorem readsBack_obj_cons (name : Text) (value : Json) (members : List (Text × Json))
    (hf : memberValuesCanonical ((name, value) :: members) = true)
    (ih : ∀ member ∈ (name, value) :: members, ReadsBack member.2) :
    ReadsBack (.obj ((name, value) :: members)) := by
  intro room level fuel rest hp he hl
  obtain ⟨room, rfl⟩ := exists_room_of_obj hp
  obtain ⟨f, rfl⟩ := exists_fuel_succ (.obj ((name, value) :: members)) hf hl
  have hs : Text.ofChars (printAt level (.obj ((name, value) :: members))) ++ rest =
      .char '\x7b' :: (Text.ofChars (lineBreak (level + 1)) ++
        (Text.ofChars (printText name ++ [':', ' ']) ++
          (Text.ofChars (printAt (level + 1) value) ++
            (Text.ofChars (printMembers (level + 1) members) ++
              (Text.ofChars (lineBreak level) ++ .char '\x7d' :: rest))))) := by
    simp [printAt, Text.ofChars]
  have hlen : (printText name ++ [':', ' '] ++ printAt (level + 1) value ++
      printMembers (level + 1) members).length < f := by
    simp only [printAt, List.length_append, List.length_cons, List.length_nil] at hl ⊢
    omega
  have hmembers := readMembers_printMembers name value members (level + 1) level f rest ih hf
    ((fits_obj _).mp hp) hlen
  rw [hs, readValue, skipGap_lineBreak, skipGap_printText]
  split
  · rename_i more hm
    exact absurd (Point.char.inj (List.cons.inj hm).1) (by decide)
  · rw [hmembers]
    rfl

/-- What every value with canonical numbers has: its printed form is read back. -/
theorem readsBack : ∀ v : Json, v.isCanonical = true → ReadsBack v
  | .null, _ => readsBack_word .null "null" 'n' ['u', 'l', 'l'] (by simp [wordValues]) rfl
      (by decide) (fun _ => rfl) rfl
  | .bool true, _ => readsBack_word (.bool true) "true" 't' ['r', 'u', 'e'] (by simp [wordValues])
      rfl (by decide) (fun _ => rfl) rfl
  | .bool false, _ => readsBack_word (.bool false) "false" 'f' ['a', 'l', 's', 'e']
      (by simp [wordValues]) rfl (by decide) (fun _ => rfl) rfl
  | .int n, _ => readsBack_int n
  | .float x, hf => readsBack_float x (of_decide_eq_true hf)
  | .str t, _ => readsBack_text t
  | .arr [], _ => readsBack_arr_nil
  | .obj [], _ => readsBack_obj_nil
  | .arr (item :: items), hf =>
    readsBack_arr_cons item items hf fun v hv => readsBack v (areCanonical_mem hf v hv)
  | .obj ((name, value) :: members), hf =>
    readsBack_obj_cons name value members hf fun member hm =>
      readsBack member.2 (memberValuesCanonical_mem hf member hm)
termination_by v => sizeOf v
decreasing_by
  · have := List.sizeOf_lt_of_mem hv
    simp only [Json.arr.sizeOf_spec]
    omega
  · have := List.sizeOf_lt_of_mem hm
    obtain ⟨_, _⟩ := member
    simp only [Json.obj.sizeOf_spec, Prod.mk.sizeOf_spec] at this ⊢
    omega

/-- A printed document is read back where there is room for it, also with the line break at its
end. -/
theorem parseWithin_printAt {room : Nat} (v : Json) (hf : v.isCanonical = true)
    (hp : v.fits room = true) :
    parseWithin room (Text.ofChars (printAt 0 v ++ ['\n'])) = .ok v.reread := by
  have hs : Text.ofChars (printAt 0 v ++ ['\n']) =
      Text.ofChars (printAt 0 v) ++ [.char '\n'] := by
    simp [Text.ofChars]
  have hl : (printAt 0 v).length ≤ 2 * (Text.ofChars (printAt 0 v ++ ['\n'])).length + 1 := by
    simp only [Text.ofChars, List.length_map, List.length_append]
    omega
  have hv := readsBack v hf room 0 _ [.char '\n'] hp (Or.inr rfl) hl
  have hg : skipGap [.char '\n'] = [] := rfl
  rw [parseWithin, hs, skipGap_printAt 0 v hf, ← hs]
  rw [← hs] at hv
  simp only [hs] at hv ⊢
  simp only [hv, bind, Except.bind, hg]
  rfl

end SessionKeeper.Json

namespace SessionKeeper.Record

def octetsIn (document : Json) : Octets := Utf8.encodeChars (document.printAt 0 ++ ['\n'])

variable [Runtime]

theorem octetsOf_eq_ok {document : Json} {octets : Octets} : octetsOf document = .ok octets ↔
    document.fits (Runtime.prints + 1) = true ∧ octets = octetsIn document := by
  rw [octetsOf, Json.print, ← Json.limit?_eq_none]
  cases document.limit? (Runtime.prints + 1) with
  | none => exact ⟨fun h => ⟨rfl, (Except.ok.inj h).symm⟩, fun h => congrArg _ h.2.symm⟩
  | some limit => exact ⟨nofun, nofun⟩

theorem octetsOf_eq_error {document : Json} {limit : Limit} :
    octetsOf document = .error limit ↔ document.limit? (Runtime.prints + 1) = some limit := by
  rw [octetsOf, Json.print]
  cases document.limit? (Runtime.prints + 1) with
  | none => exact ⟨nofun, nofun⟩
  | some other =>
    exact ⟨fun h => congrArg _ (Except.error.inj h), fun h => congrArg _ (Option.some.inj h)⟩

theorem not_fits_of_octetsOf {document : Json} {limit : Limit}
    (h : octetsOf document = .error limit) : document.fits (Runtime.prints + 1) = false := by
  rw [Json.fits, octetsOf_eq_error.mp h]
  rfl

/-- The printed form of members that there is room for holds the members that come back. -/
theorem entriesOf_octetsIn (entries : Assoc Text Json)
    (hf : (Json.obj entries).isCanonical = true)
    (fits : (Json.obj entries).fits (Runtime.reads + 1) = true) :
    entriesOf (octetsIn (.obj entries)) = .ok (.ok (Assoc.ofPairs (Json.rereadMembers entries))) := by
  rw [octetsIn, entriesOf, Utf8.decode_encodeChars]
  simp only [Json.parse, Json.parseWithin_printAt _ hf fits, Json.reread]

end SessionKeeper.Record
