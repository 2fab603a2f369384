import SessionKeeper.Json.Printer
import SessionKeeper.Json.Reader
import SessionKeeper.Proofs.Text.Utf8

/-!
# Surrogate pairs in text

A text that went through a document comes back with each leading surrogate joined to
a trailing one that directly follows it. `rejoin` is that effect. It leaves alone
whatever holds no such pair, in particular every text of characters.
-/
namespace SessionKeeper.Json

theorem isLeading_iff (n : Nat) : isLeading n = true ↔ 0xD800 ≤ n ∧ n < 0xDC00 := by
  simp [isLeading]

theorem isTrailing_iff (n : Nat) : isTrailing n = true ↔ 0xDC00 ≤ n ∧ n < 0xE000 := by
  simp [isTrailing]

theorem isLeading_char (c : Char) : isLeading (Point.char c).code = false := by
  have h := Utf8.isScalar_toNat c
  unfold Utf8.IsScalar at h
  rw [Bool.eq_false_iff, ne_eq, isLeading_iff]
  show ¬ (0xD800 ≤ c.toNat ∧ c.toNat < 0xDC00)
  omega

end SessionKeeper.Json

namespace SessionKeeper.Text

/-- The text with neighbouring surrogates of a pair joined into one character. -/
def rejoin : Text → Text
  | [] => []
  | [p] => [p]
  | p :: q :: rest =>
    if Json.isLeading p.code && Json.isTrailing q.code then
      Json.joinPair p.code q.code :: rejoin rest
    else p :: rejoin (q :: rest)

def startsTrailing : Text → Bool
  | [] => false
  | p :: _ => Json.isTrailing p.code

theorem rejoin_cons (p : Point) (t : Text)
    (h : (Json.isLeading p.code && startsTrailing t) = false) :
    rejoin (p :: t) = p :: rejoin t := by
  cases t with
  | nil => rfl
  | cons q rest =>
    have hq : ¬ (Json.isLeading p.code && Json.isTrailing q.code) = true := by
      rw [Bool.not_eq_true]
      exact h
    rw [rejoin, if_neg hq]

@[simp] theorem rejoin_char (c : Char) (t : Text) :
    rejoin (.char c :: t) = .char c :: rejoin t :=
  rejoin_cons _ _ (by rw [Json.isLeading_char, Bool.false_and])

@[simp] theorem rejoin_ofChars (cs : List Char) : rejoin (ofChars cs) = ofChars cs := by
  induction cs with
  | nil => rfl
  | cons c cs ih =>
    have h : ofChars (c :: cs) = .char c :: ofChars cs := rfl
    rw [h, rejoin_char, ih]

@[simp] theorem rejoin_ofString (s : String) : rejoin (ofString s) = ofString s :=
  rejoin_ofChars s.toList

end SessionKeeper.Text

namespace SessionKeeper.Json

/-- How the printed form spells a code point. -/
def spell (p : Point) : List Spelling :=
  let n := p.code
  if n = 34 ∨ n = 92 ∨ n = 10 ∨ n = 13 ∨ n = 9 ∨ n = 8 ∨ n = 12 ∨ (32 ≤ n ∧ n < 127) then [.plain p]
  else if n < 0x10000 then [.escaped n]
  else [.escaped (0xD800 + (n - 0x10000) / 1024), .escaped (0xDC00 + (n - 0x10000) % 1024)]

theorem code_lt (p : Point) : p.code < 0x110000 := by
  cases p with
  | char c =>
    have h := Utf8.isScalar_toNat c
    unfold Utf8.IsScalar at h
    show c.toNat < 0x110000
    omega
  | surrogate i =>
    have h := i.isLt
    show 0xD800 + i.val < 0x110000
    omega

@[simp] theorem ofCode_code (p : Point) : Point.ofCode p.code = p := by
  cases p with
  | char c => exact Utf8.ofCode_toNat c
  | surrogate i =>
    have h := i.isLt
    have hr : 0xD800 ≤ 0xD800 + i.val ∧ 0xD800 + i.val < 0xE000 := by omega
    simp [Point.ofCode, Point.code, hr]

def spelledTrailing : List Spelling → Bool
  | .escaped m :: _ => isTrailing m
  | _ => false

@[simp] theorem joinSpellings_plain (p : Point) (s : List Spelling) :
    joinSpellings (.plain p :: s) = p :: joinSpellings s := by
  rw [joinSpellings.eq_def]

theorem joinSpellings_escaped (n : Nat) (s : List Spelling)
    (h : (isLeading n && spelledTrailing s) = false) :
    joinSpellings (.escaped n :: s) = Point.ofCode n :: joinSpellings s := by
  match s with
  | [] => rw [joinSpellings, joinSpellings]
  | .plain p :: rest => rw [joinSpellings.eq_def, joinSpellings_plain]
  | .escaped m :: rest =>
    have hm : ¬ (isLeading n && isTrailing m) = true := by
      rw [Bool.not_eq_true]
      exact h
    rw [joinSpellings, if_neg hm]

theorem joinSpellings_pair (n m : Nat) (s : List Spelling)
    (h : (isLeading n && isTrailing m) = true) :
    joinSpellings (.escaped n :: .escaped m :: s) = joinPair n m :: joinSpellings s := by
  rw [joinSpellings, if_pos h]

/-- The spelling of a text begins like a trailing surrogate just when the text does. -/
theorem spelledTrailing_spell (t : Text) :
    spelledTrailing (t.flatMap spell) = t.startsTrailing := by
  cases t with
  | nil => rfl
  | cons p t =>
    rw [List.flatMap_cons, Text.startsTrailing]
    have hp := code_lt p
    rw [Bool.eq_iff_iff, isTrailing_iff]
    unfold spell
    dsimp only
    split_ifs with h1 h2
    · simp only [List.singleton_append, spelledTrailing, Bool.false_eq_true, false_iff]
      omega
    · simp only [List.singleton_append, spelledTrailing, isTrailing_iff]
    · simp only [List.cons_append, spelledTrailing, isTrailing_iff]
      omega

/-- A code point that is not half of a pair with what follows is read back as it was. -/
theorem joinSpellings_spell_cons (p : Point) (s : List Spelling)
    (h : (isLeading p.code && spelledTrailing s) = false) :
    joinSpellings (spell p ++ s) = p :: joinSpellings s := by
  unfold spell
  dsimp only
  split_ifs with h1 h2
  · exact joinSpellings_plain p s
  · rw [List.singleton_append, joinSpellings_escaped _ _ h, ofCode_code]
  · have hp := code_lt p
    have hpair : (isLeading (0xD800 + (p.code - 0x10000) / 1024) &&
        isTrailing (0xDC00 + (p.code - 0x10000) % 1024)) = true := by
      rw [Bool.and_eq_true, isLeading_iff, isTrailing_iff]
      omega
    have hcode : 0x10000 + (0xD800 + (p.code - 0x10000) / 1024 - 0xD800) * 1024 +
        (0xDC00 + (p.code - 0x10000) % 1024 - 0xDC00) = p.code := by omega
    rw [List.cons_append, List.singleton_append, joinSpellings_pair _ _ _ hpair, joinPair, hcode,
      ofCode_code]

/-- Reading the spelling of a text back joins its surrogate pairs. -/
theorem joinSpellings_spell (t : Text) : joinSpellings (t.flatMap spell) = t.rejoin := by
  induction t using Text.rejoin.induct with
  | case1 => rw [List.flatMap_nil, joinSpellings, Text.rejoin]
  | case2 p =>
    rw [List.flatMap_cons, joinSpellings_spell_cons p _ (by simp [spelledTrailing])]
    rfl
  | case3 p q rest h ih =>
    have hp := h
    rw [Bool.and_eq_true, isLeading_iff, isTrailing_iff] at hp
    have sp : spell p = [.escaped p.code] := by
      unfold spell
      dsimp only
      rw [if_neg (by omega), if_pos (by omega)]
    have sq : spell q = [.escaped q.code] := by
      unfold spell
      dsimp only
      rw [if_neg (by omega), if_pos (by omega)]
    rw [List.flatMap_cons, List.flatMap_cons, sp, sq, List.singleton_append, List.singleton_append,
      joinSpellings_pair _ _ _ h, ih, Text.rejoin, if_pos h]
  | case4 p q rest h ih =>
    have ht : (isLeading p.code && spelledTrailing ((q :: rest).flatMap spell)) = false := by
      rw [spelledTrailing_spell]
      exact Bool.not_eq_true _ ▸ h
    rw [List.flatMap_cons, joinSpellings_spell_cons p _ ht, ih, Text.rejoin, if_neg h]

end SessionKeeper.Json

namespace SessionKeeper.Json

theorem hexValue?_hexDigit (n : Nat) : hexValue? (.char (Utf8.hexDigit n)) = some (n % 16) := by
  have small : ∀ m < 16, hexValue? (.char (Utf8.hexDigit m)) = some m := by decide
  have h := small (n % 16) (Nat.mod_lt n (by decide))
  simpa [Utf8.hexDigit] using h

theorem spellings_unitEscape (n : Nat) (h : n < 0x10000) (rest : Text) :
    spellings (Text.ofChars (unitEscape n) ++ rest) =
      (spellings rest).map fun (s, left) => (.escaped n :: s, left) := by
  have hq : hexQuad? (.char (Utf8.hexDigit (n / 4096))) (.char (Utf8.hexDigit (n / 256)))
      (.char (Utf8.hexDigit (n / 16))) (.char (Utf8.hexDigit n)) = some n := by
    simp only [hexQuad?, hexValue?_hexDigit, Option.bind_eq_bind, Option.bind_some,
      Option.pure_def, Option.some.injEq]
    omega
  have hs : Text.ofChars (unitEscape n) ++ rest = .char '\\' :: .char 'u' ::
      .char (Utf8.hexDigit (n / 4096)) :: .char (Utf8.hexDigit (n / 256)) ::
      .char (Utf8.hexDigit (n / 16)) :: .char (Utf8.hexDigit n) :: rest := rfl
  rw [hs, spellings]
  simp [hq]

theorem spellings_short (c e : Char) (he : e ≠ 'u') (h : shortEscape? (.char e) = some c)
    (rest : Text) :
    spellings (.char '\\' :: .char e :: rest) =
      (spellings rest).map fun (s, left) => (.plain (.char c) :: s, left) := by
  rw [spellings.eq_def]
  simp [he, h]

theorem spellings_plain (p : Point) (hq : p ≠ .char '\x22') (hb : p ≠ .char '\\')
    (hn : ¬ p.code < 32) (rest : Text) :
    spellings (p :: rest) = (spellings rest).map fun (s, left) => (.plain p :: s, left) := by
  rw [spellings.eq_def]
  simp only [hq, hb, hn, if_false]

theorem eq_char {p : Point} {n : Nat} (h : p.code = n) (hn : n < 0xD800) :
    p = .char (Char.ofNat n) := by
  have hp := ofCode_code p
  rw [h, Point.ofCode, dif_neg (by omega)] at hp
  exact hp.symm

theorem spellings_escape_short {p : Point} {n : Nat} {e : Char} (hp : p.code = n)
    (hn : n ∈ [34, 92, 10, 13, 9, 8, 12]) (he : e ≠ 'u')
    (h : shortEscape? (.char e) = some (Char.ofNat n)) (rest : Text) :
    spellings (Text.ofChars ['\\', e] ++ rest) =
      (spellings rest).map fun (s, left) => (spell p ++ s, left) := by
  simp only [List.mem_cons, List.not_mem_nil, or_false] at hn
  have sp : spell p = [.plain (.char (Char.ofNat n))] := by
    rw [spell, ← eq_char hp (by omega)]
    exact if_pos (by omega)
  rw [sp]
  exact spellings_short _ _ he h rest

theorem spellings_escape_plain {p : Point} (printed : 32 ≤ p.code ∧ p.code < 127)
    (hq : p.code ≠ 34) (hb : p.code ≠ 92) (rest : Text) :
    spellings (Text.ofChars [Char.ofNat p.code] ++ rest) =
      (spellings rest).map fun (s, left) => (spell p ++ s, left) := by
  have hs : Text.ofChars [Char.ofNat p.code] ++ rest = p :: rest := by
    rw [Text.ofChars, List.map_singleton, List.singleton_append, ← eq_char rfl (by omega)]
  have sp : spell p = [.plain p] := if_pos (by omega)
  rw [hs, sp, spellings_plain p ?_ ?_ (by omega) rest]
  · rfl
  · rintro rfl
    exact hq rfl
  · rintro rfl
    exact hb rfl

/-- A code point above the first 65536 is printed as the two halves of a pair. -/
theorem spellings_escape_pair {p : Point} (above : ¬ p.code < 0x10000) (rest : Text) :
    spellings (Text.ofChars (unitEscape (0xD800 + (p.code - 0x10000) / 1024) ++
      unitEscape (0xDC00 + (p.code - 0x10000) % 1024)) ++ rest) =
      (spellings rest).map fun (s, left) => (spell p ++ s, left) := by
  have hp := code_lt p
  have sp : spell p = [.escaped (0xD800 + (p.code - 0x10000) / 1024),
      .escaped (0xDC00 + (p.code - 0x10000) % 1024)] := by
    rw [spell]
    rw [if_neg (by omega), if_neg above]
  have hs (cs ds : List Char) : Text.ofChars (cs ++ ds) ++ rest =
      Text.ofChars cs ++ (Text.ofChars ds ++ rest) := by
    simp [Text.ofChars]
  rw [sp, hs, spellings_unitEscape _ (by omega), spellings_unitEscape _ (by omega),
    Option.map_map]
  rfl

/-- The printed form of a code point is read as its spelling. -/
theorem spellings_escapePoint (p : Point) (rest : Text) :
    spellings (Text.ofChars (escapePoint p) ++ rest) =
      (spellings rest).map fun (s, left) => (spell p ++ s, left) := by
  unfold escapePoint
  dsimp only
  split_ifs with h34 h92 h10 h13 h9 h8 h12 hplain hunit
  · exact spellings_escape_short h34 (by decide) (by decide) (by decide) rest
  · exact spellings_escape_short h92 (by decide) (by decide) (by decide) rest
  · exact spellings_escape_short h10 (by decide) (by decide) (by decide) rest
  · exact spellings_escape_short h13 (by decide) (by decide) (by decide) rest
  · exact spellings_escape_short h9 (by decide) (by decide) (by decide) rest
  · exact spellings_escape_short h8 (by decide) (by decide) (by decide) rest
  · exact spellings_escape_short h12 (by decide) (by decide) (by decide) rest
  · exact spellings_escape_plain hplain h34 h92 rest
  · have sp : spell p = [.escaped p.code] := by
      rw [spell]
      rw [if_neg (by omega), if_pos hunit]
    rw [sp, spellings_unitEscape p.code hunit rest]
    rfl
  · exact spellings_escape_pair hunit rest

/-- The printed form of a text up to its closing quote is read as its spelling. -/
theorem spellings_escapeText (t rest : Text) :
    spellings (Text.ofChars (escapeText t) ++ .char quote :: rest) =
      some (t.flatMap spell, rest) := by
  induction t with
  | nil =>
    have hs : Text.ofChars (escapeText []) ++ .char quote :: rest = .char '\x22' :: rest := rfl
    rw [hs, spellings.eq_def, List.flatMap_nil]
    rfl
  | cons p t ih =>
    have hs : Text.ofChars (escapeText (p :: t)) ++ .char quote :: rest =
        Text.ofChars (escapePoint p) ++ (Text.ofChars (escapeText t) ++ .char quote :: rest) := by
      simp [Text.ofChars, escapeText]
    rw [hs, spellings_escapePoint, ih, List.flatMap_cons]
    rfl

/-- A printed text is read back with its surrogate pairs joined. -/
theorem readText_escapeText (t rest : Text) :
    readText (Text.ofChars (escapeText t) ++ .char quote :: rest) = .ok (t.rejoin, rest) := by
  rw [readText, spellings_escapeText]
  show Except.ok (joinSpellings (t.flatMap spell), rest) = _
  rw [joinSpellings_spell]

end SessionKeeper.Json
