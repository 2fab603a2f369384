import SessionKeeper.Text.Utf8
import Mathlib.Tactic

/-!
# Decoding UTF-8 undoes encoding

The strict decoder looks at one leading octet at a time. Each of the four ranges of
code points is shown to be read back from its own leading octet with exactly its own
continuation octets, whatever follows them; a whole text then decodes character by
character. Surrogates have no encoding and are excluded by the type of characters.
Conversely octets that are read as a character are those it is written with, so that the
octets of texts are the only ones that are read at all.
-/
namespace SessionKeeper.Utf8

theorem toNat_ofNat {n : Nat} (h : n < 256) : (UInt8.ofNat n).toNat = n := by
  simp [UInt8.toNat_ofNat', Nat.mod_eq_of_lt h]

/-- A number below 2^16 that is no surrogate, or one from there up to the last code point. -/
def IsScalar (n : Nat) : Prop := n < 0xD800 ∨ (0xDFFF < n ∧ n < 0x110000)

theorem head_one {n : Nat} (h : n < 0x80) (rest : Octets) :
    head false (UInt8.ofNat n) rest = (.ok n, 0) := by
  have hn := toNat_ofNat (n := n) (by omega)
  simp [head, UInt8.lt_iff_toNat_lt, hn, h]

theorem isTail_tail (n : Nat) : isTail (UInt8.ofNat (0x80 + n % 64)) = true := by
  have hn := toNat_ofNat (n := 0x80 + n % 64) (by omega)
  simp only [isTail, Bool.and_eq_true, decide_eq_true_eq, UInt8.le_iff_toNat_le,
    UInt8.lt_iff_toNat_lt, hn]
  constructor
  · show 128 ≤ 0x80 + n % 64
    omega
  · show 0x80 + n % 64 < 192
    omega

theorem tailBits_tail (n : Nat) : tailBits (UInt8.ofNat (0x80 + n % 64)) = n % 64 := by
  rw [tailBits, toNat_ofNat (by omega)]
  omega

theorem head_two {n : Nat} (hl : 0x80 ≤ n) (hh : n < 0x800) (rest : Octets) :
    head false (UInt8.ofNat (0xC0 + n / 64)) (UInt8.ofNat (0x80 + n % 64) :: rest) =
      (.ok n, 1) := by
  have hn := toNat_ofNat (n := 0xC0 + n / 64) (by omega)
  have h1 : ¬ UInt8.ofNat (0xC0 + n / 64) < 0x80 := by
    rw [UInt8.lt_iff_toNat_lt, hn]; show ¬ _ < 128; omega
  have h2 : ¬ UInt8.ofNat (0xC0 + n / 64) < 0xC2 := by
    rw [UInt8.lt_iff_toNat_lt, hn]; show ¬ _ < 194; omega
  have h3 : UInt8.ofNat (0xC0 + n / 64) < 0xE0 := by
    rw [UInt8.lt_iff_toNat_lt, hn]; show _ < 224; omega
  simp only [head, h1, h2, h3, if_false, if_true, isTail_tail, tailBits_tail, hn]
  congr 2
  omega

theorem threeFits_iff (lead second : UInt8) : threeFits false lead second = true ↔
    isTail second = true ∧ (lead.toNat = 0xE0 → 0xA0 ≤ second.toNat) ∧
      (lead.toNat = 0xED → second.toNat < 0xA0) := by
  simp only [threeFits, Bool.false_or, Bool.and_eq_true, Bool.or_eq_true, bne_iff_ne, ne_eq,
    decide_eq_true_eq, ← UInt8.toNat_inj, UInt8.le_iff_toNat_le, UInt8.lt_iff_toNat_lt]
  show (_ ∧ (¬ _ = 224 ∨ 160 ≤ _)) ∧ (¬ _ = 237 ∨ _ < 160) ↔ _
  tauto

theorem fourFits_iff (lead second : UInt8) : fourFits lead second = true ↔
    isTail second = true ∧ (lead.toNat = 0xF0 → 0x90 ≤ second.toNat) ∧
      (lead.toNat = 0xF4 → second.toNat < 0x90) := by
  simp only [fourFits, Bool.and_eq_true, Bool.or_eq_true, bne_iff_ne, ne_eq,
    decide_eq_true_eq, ← UInt8.toNat_inj, UInt8.le_iff_toNat_le, UInt8.lt_iff_toNat_lt]
  show (_ ∧ (¬ _ = 240 ∨ 144 ≤ _)) ∧ (¬ _ = 244 ∨ _ < 144) ↔ _
  tauto

theorem head_three {n : Nat} (hl : 0x800 ≤ n) (hh : n < 0x10000) (hs : IsScalar n) (rest : Octets) :
    head false (UInt8.ofNat (0xE0 + n / 4096))
      (UInt8.ofNat (0x80 + n / 64 % 64) :: UInt8.ofNat (0x80 + n % 64) :: rest) = (.ok n, 2) := by
  have hn := toNat_ofNat (n := 0xE0 + n / 4096) (by omega)
  have hm := toNat_ofNat (n := 0x80 + n / 64 % 64) (by omega)
  have h1 : ¬ UInt8.ofNat (0xE0 + n / 4096) < 0x80 := by
    rw [UInt8.lt_iff_toNat_lt, hn]; show ¬ _ < 128; omega
  have h2 : ¬ UInt8.ofNat (0xE0 + n / 4096) < 0xC2 := by
    rw [UInt8.lt_iff_toNat_lt, hn]; show ¬ _ < 194; omega
  have h3 : ¬ UInt8.ofNat (0xE0 + n / 4096) < 0xE0 := by
    rw [UInt8.lt_iff_toNat_lt, hn]; show ¬ _ < 224; omega
  have h4 : UInt8.ofNat (0xE0 + n / 4096) < 0xF0 := by
    rw [UInt8.lt_iff_toNat_lt, hn]; show _ < 240; omega
  have fits : threeFits false (UInt8.ofNat (0xE0 + n / 4096))
      (UInt8.ofNat (0x80 + n / 64 % 64)) = true := by
    rw [threeFits_iff, hn, hm]
    unfold IsScalar at hs
    exact ⟨isTail_tail _, by omega, by omega⟩
  simp only [head, h1, h2, h3, h4, if_false, if_true, fits, Bool.not_true, Bool.false_eq_true,
    isTail_tail, tailBits_tail, hn]
  congr 2
  omega

theorem head_four {n : Nat} (hl : 0x10000 ≤ n) (hh : n < 0x110000) (rest : Octets) :
    head false (UInt8.ofNat (0xF0 + n / 262144))
      (UInt8.ofNat (0x80 + n / 4096 % 64) :: UInt8.ofNat (0x80 + n / 64 % 64) ::
        UInt8.ofNat (0x80 + n % 64) :: rest) = (.ok n, 3) := by
  have hn := toNat_ofNat (n := 0xF0 + n / 262144) (by omega)
  have hm := toNat_ofNat (n := 0x80 + n / 4096 % 64) (by omega)
  have h1 : ¬ UInt8.ofNat (0xF0 + n / 262144) < 0x80 := by
    rw [UInt8.lt_iff_toNat_lt, hn]; show ¬ _ < 128; omega
  have h2 : ¬ UInt8.ofNat (0xF0 + n / 262144) < 0xC2 := by
    rw [UInt8.lt_iff_toNat_lt, hn]; show ¬ _ < 194; omega
  have h3 : ¬ UInt8.ofNat (0xF0 + n / 262144) < 0xE0 := by
    rw [UInt8.lt_iff_toNat_lt, hn]; show ¬ _ < 224; omega
  have h4 : ¬ UInt8.ofNat (0xF0 + n / 262144) < 0xF0 := by
    rw [UInt8.lt_iff_toNat_lt, hn]; show ¬ _ < 240; omega
  have h5 : UInt8.ofNat (0xF0 + n / 262144) < 0xF5 := by
    rw [UInt8.lt_iff_toNat_lt, hn]; show _ < 245; omega
  have fits : fourFits (UInt8.ofNat (0xF0 + n / 262144))
      (UInt8.ofNat (0x80 + n / 4096 % 64)) = true := by
    rw [fourFits_iff, hn, hm]
    exact ⟨isTail_tail _, by omega, by omega⟩
  simp only [head, h1, h2, h3, h4, h5, if_false, if_true, fits, Bool.not_true,
    Bool.false_eq_true, isTail_tail, tailBits_tail, hn]
  congr 2
  omega

/-- The octets of a scalar are read back as one character, whatever follows them. -/
theorem head_encodeCode {n : Nat} (h : IsScalar n) (rest : Octets) :
    ∃ lead tail, encodeCode n = lead :: tail ∧
      head false lead (tail ++ rest) = (.ok n, tail.length) := by
  unfold encodeCode
  split_ifs with h1 h2 h3
  · exact ⟨_, [], rfl, head_one h1 rest⟩
  · exact ⟨_, _, rfl, head_two (by omega) h2 rest⟩
  · exact ⟨_, _, rfl, head_three (by omega) h3 h rest⟩
  · refine ⟨_, _, rfl, head_four (by omega) ?_ rest⟩
    rcases h with h | h <;> omega

theorem isScalar_toNat (c : Char) : IsScalar c.toNat := by
  rcases c.valid with h | h
  · exact Or.inl h
  · exact Or.inr h

theorem ofCode_toNat (c : Char) : Point.ofCode c.toNat = .char c := by
  have h := isScalar_toNat c
  have hn : ¬ (0xD800 ≤ c.toNat ∧ c.toNat < 0xE000) := by unfold IsScalar at h; omega
  rw [Point.ofCode, dif_neg hn, Char.ofNat_toNat]

theorem decodeFrom_encodeChars (cs : List Char) (position : Nat) :
    decodeFrom false position (encodeChars cs) = .ok (Text.ofChars cs) := by
  induction cs generalizing position with
  | nil => simp [encodeChars, decodeFrom, Text.ofChars]
  | cons c cs ih =>
    obtain ⟨lead, tail, he, hh⟩ := head_encodeCode (isScalar_toNat c) (encodeChars cs)
    have hs : encodeChars (c :: cs) = lead :: (tail ++ encodeChars cs) := by
      simp [encodeChars, he]
    rw [hs, decodeFrom]
    simp only [hh, List.drop_left, ih, Except.map, ofCode_toNat]
    simp [Text.ofChars]

@[simp] theorem scalars_ofChars (cs : List Char) : Text.scalars (Text.ofChars cs) = cs := by
  induction cs with
  | nil => rfl
  | cons c cs ih => simpa [Text.scalars, Text.ofChars, Point.toChar?] using ih

theorem decode_encodeChars (cs : List Char) : decode (encodeChars cs) = .ok cs := by
  simp [decode, decodeFrom_encodeChars, Except.map]

/-- Distinct texts have distinct octets. -/
theorem encodeChars_injective : Function.Injective encodeChars := by
  intro a b h
  have ha := decode_encodeChars a
  rw [h, decode_encodeChars] at ha
  exact (Except.ok.inj ha).symm

theorem isTail_iff (b : UInt8) : isTail b = true ↔ 0x80 ≤ b.toNat ∧ b.toNat < 0xC0 := by
  rw [isTail, Bool.and_eq_true, decide_eq_true_iff, decide_eq_true_iff, UInt8.le_iff_toNat_le,
    UInt8.lt_iff_toNat_lt]
  rfl

/-- An octet is told by its number. -/
theorem ofNat_eq {n : Nat} {b : UInt8} (h : n = b.toNat) : UInt8.ofNat n = b := by
  rw [h, UInt8.ofNat_toNat]

/-- Octets that fit together are those of the number that they spell. -/
theorem encodeCode_two {lead b : UInt8} (low : 0xC2 ≤ lead.toNat) (high : lead.toNat < 0xE0)
    (tail : isTail b = true) : IsScalar (lead.toNat % 32 * 64 + tailBits b) ∧
      encodeCode (lead.toNat % 32 * 64 + tailBits b) = [lead, b] := by
  rw [isTail_iff] at tail
  rw [tailBits, encodeCode, if_neg (by omega), if_pos (by omega), ofNat_eq (b := lead) (by omega),
    ofNat_eq (b := b) (by omega)]
  exact ⟨.inl (by omega), rfl⟩

theorem encodeCode_three {lead b c : UInt8} (low : 0xE0 ≤ lead.toNat) (high : lead.toNat < 0xF0)
    (fits : threeFits false lead b = true) (tail : isTail c = true) :
    IsScalar (lead.toNat % 16 * 4096 + tailBits b * 64 + tailBits c) ∧
      encodeCode (lead.toNat % 16 * 4096 + tailBits b * 64 + tailBits c) = [lead, b, c] := by
  rw [threeFits_iff, isTail_iff] at fits
  rw [isTail_iff] at tail
  rw [tailBits, tailBits, encodeCode, if_neg (by omega), if_neg (by omega), if_pos (by omega),
    ofNat_eq (b := lead) (by omega), ofNat_eq (b := b) (by omega), ofNat_eq (b := c) (by omega)]
  exact ⟨by unfold IsScalar; omega, rfl⟩

theorem encodeCode_four {lead b c d : UInt8} (low : 0xF0 ≤ lead.toNat) (high : lead.toNat < 0xF5)
    (fits : fourFits lead b = true) (second : isTail c = true) (third : isTail d = true) :
    IsScalar (((lead.toNat % 8 * 64 + tailBits b) * 64 + tailBits c) * 64 + tailBits d) ∧
      encodeCode (((lead.toNat % 8 * 64 + tailBits b) * 64 + tailBits c) * 64 + tailBits d) =
        [lead, b, c, d] := by
  rw [fourFits_iff, isTail_iff] at fits
  rw [isTail_iff] at second third
  rw [tailBits, tailBits, tailBits, encodeCode, if_neg (by omega), if_neg (by omega),
    if_neg (by omega), ofNat_eq (b := lead) (by omega), ofNat_eq (b := b) (by omega),
    ofNat_eq (b := c) (by omega), ofNat_eq (b := d) (by omega)]
  exact ⟨by unfold IsScalar; omega, rfl⟩

/-- What is read as one character are its octets, and it is no surrogate. -/
theorem encodeCode_of_head {lead : UInt8} {rest : Octets} {n further : Nat}
    (h : head false lead rest = (.ok n, further)) :
    IsScalar n ∧ encodeCode n ++ rest.drop further = lead :: rest := by
  have spelled {m k : Nat} {octets rest : Octets} (h : ((.ok m, k) : Except Fault Nat × Nat) =
      (.ok n, further)) (whole : octets ++ rest.drop k = lead :: rest)
      (spells : IsScalar m ∧ encodeCode m = octets) :
      IsScalar n ∧ encodeCode n ++ rest.drop further = lead :: rest := by
    obtain ⟨same, rfl⟩ := Prod.mk.inj h
    obtain rfl := Except.ok.inj same
    exact ⟨spells.1, by rw [spells.2, whole]⟩
  revert h
  -- Of the ways in which the reading of a character ends, four are not faults.
  fun_cases head false lead rest
  case case1 one =>
    intro h
    have low : lead.toNat < 0x80 := one
    refine spelled h (show [lead] ++ rest.drop 0 = lead :: rest from rfl) ⟨.inl (by omega), ?_⟩
    rw [encodeCode, if_pos low, ofNat_eq rfl]
  case case4 _ two three b _ tail =>
    intro h
    exact spelled h rfl (encodeCode_two (Nat.not_lt.mp two) three tail)
  case case9 _ _ three four b fits c _ tail =>
    intro h
    rw [Bool.not_eq_true, Bool.not_eq_false'] at fits
    exact spelled h rfl (encodeCode_three (Nat.not_lt.mp three) four fits tail)
  case case16 _ _ _ four five b fits c second d _ third =>
    intro h
    rw [Bool.not_eq_true, Bool.not_eq_false'] at fits second
    exact spelled h rfl (encodeCode_four (Nat.not_lt.mp four) five fits second third)
  all_goals
    intro h
    cases (Prod.mk.inj h).1

theorem ofCode_scalar {n : Nat} (h : IsScalar n) :
    ∃ c : Char, Point.ofCode n = .char c ∧ c.toNat = n := by
  have notHalf : ¬ (0xD800 ≤ n ∧ n < 0xE000) := by
    unfold IsScalar at h
    omega
  have valid : n.isValidChar := h
  refine ⟨Char.ofNat n, ?_, ?_⟩
  · rw [Point.ofCode, dif_neg notHalf]
  · rw [Char.ofNat, dif_pos valid]
    rfl

theorem encodeChars_of_decodeFrom {position : Nat} {octets : Octets} {t : Text}
    (h : decodeFrom false position octets = .ok t) :
    ∃ cs, t = Text.ofChars cs ∧ octets = encodeChars cs := by
  fun_induction decodeFrom false position octets generalizing t with
  | case1 => exact ⟨[], (Except.ok.inj h).symm, rfl⟩
  | case2 position lead rest code further hh ih =>
    cases hr : decodeFrom false (position + further + 1) (rest.drop further) with
    | error flaw =>
      rw [hr] at h
      cases h
    | ok left =>
      rw [hr] at h
      obtain rfl := Except.ok.inj h
      obtain ⟨cs, rfl, same⟩ := ih hr
      obtain ⟨scalar, octets⟩ := encodeCode_of_head hh
      obtain ⟨c, point, number⟩ := ofCode_scalar scalar
      refine ⟨c :: cs, by rw [point]; rfl, ?_⟩
      rw [← octets, same, ← number]
      rfl
  | case3 => cases h

/-- The octets that are read as characters are those that the characters are written with. -/
theorem decode_eq_ok_iff {octets : Octets} {cs : List Char} :
    decode octets = .ok cs ↔ octets = encodeChars cs := by
  constructor
  · intro h
    rw [decode] at h
    cases hd : decodeFrom false 0 octets with
    | error flaw =>
      rw [hd] at h
      cases h
    | ok t =>
      rw [hd] at h
      obtain ⟨ds, rfl, same⟩ := encodeChars_of_decodeFrom hd
      obtain rfl := Except.ok.inj h
      rw [scalars_ofChars, same]
  · rintro rfl
    exact decode_encodeChars cs

end SessionKeeper.Utf8
