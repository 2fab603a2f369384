import SessionKeeper.Text.Percent
import SessionKeeper.Proofs.Text.Utf8

/-!
# Percent-encoding is reversible

An octet that stands for itself is an ASCII octet other than the percent sign, so the
decoder never takes it for the start of an escape. Every other octet is written with
two digits that determine it. Hence the written form determines the text.
-/
namespace SessionKeeper.Percent

theorem digitValue?_digit (n : Nat) : digitValue? (digit n) = some (n % 16) := by
  have small : ∀ m < 16, digitValue? (digit m) = some m := by decide
  have h := small (n % 16) (Nat.mod_lt n (by decide))
  simpa [digit] using h

theorem lt_of_isPlain (b : UInt8) (h : isPlain b = true) :
    b.toNat < 128 ∧ Char.ofNat b.toNat ≠ '%' := by
  have all : ∀ n < 256, isPlain (UInt8.ofNat n) = true → n < 128 ∧ Char.ofNat n ≠ '%' := by
    decide +kernel
  exact all b.toNat b.toNat_lt (by simpa using h)

theorem decodeOctets_cons (c : Char) (h : c ≠ '%') (rest : List Char) :
    decodeOctets (c :: rest) = Utf8.encodeCode c.toNat ++ decodeOctets rest := by
  rw [decodeOctets]
  intro a b more hc
  exact absurd hc h

theorem decodeOctets_encodeOctet (b : UInt8) (rest : List Char) :
    decodeOctets (encodeOctet b ++ rest) = b :: decodeOctets rest := by
  unfold encodeOctet
  split_ifs with h
  · obtain ⟨hb, hc⟩ := lt_of_isPlain b h
    have ascii : ∀ n < 128, (Char.ofNat n).toNat = n := by decide +kernel
    have hn := ascii b.toNat hb
    rw [List.singleton_append, decodeOctets_cons _ hc, hn]
    simp [Utf8.encodeCode, hb]
  · simp only [List.cons_append, List.nil_append]
    rw [decodeOctets]
    simp only [digitValue?_digit]
    congr 1
    have hb := b.toNat_lt
    rw [← UInt8.toNat_inj]
    simp only [UInt8.toNat_ofNat']
    omega

theorem decodeOctets_encodeOctets (octets : Octets) :
    decodeOctets (encodeOctets octets) = octets := by
  induction octets with
  | nil => simp [encodeOctets, decodeOctets]
  | cons b rest ih =>
    have h : encodeOctets (b :: rest) = encodeOctet b ++ encodeOctets rest := by
      simp [encodeOctets]
    rw [h, decodeOctets_encodeOctet, ih]

end SessionKeeper.Percent

namespace SessionKeeper.Text

theorem eq_ofChars {t : Text} {cs : List Char} (h : t.toChars? = some cs) :
    t = ofChars cs := by
  induction t generalizing cs with
  | nil =>
    simp only [toChars?, List.mapM_nil, Option.pure_def, Option.some.injEq] at h
    rw [← h]
    rfl
  | cons p t ih =>
    cases p with
    | surrogate i => simp [toChars?, Point.toChar?] at h
    | char c =>
      simp only [toChars?, List.mapM_cons, Point.toChar?, Option.bind_eq_bind,
        Option.bind_some] at h
      obtain ⟨rest, hr, hc⟩ := Option.bind_eq_some_iff.mp h
      have hcs : cs = c :: rest := by simpa using hc.symm
      rw [hcs, ih hr]
      rfl

end SessionKeeper.Text

namespace SessionKeeper.Percent

theorem encode?_ofChars (cs : List Char) :
    encode? (.ofChars cs) = some (String.ofList (encodeOctets (Utf8.encodeChars cs))) := by
  rw [encode?, Utf8.encode?, Text.toChars?_ofChars]
  rfl

/-- The written form of a text is read back as the text. -/
theorem decode?_of_encode? {t : Text} {s : String} (h : encode? t = some s) :
    decode? s = some t := by
  obtain ⟨octets, encoded, rfl⟩ := Option.map_eq_some_iff.mp h
  obtain ⟨cs, spelled, rfl⟩ := Option.map_eq_some_iff.mp encoded
  rw [decode?, String.toList_ofList, decodeOctets_encodeOctets, Utf8.decode_encodeChars,
    Text.eq_ofChars spelled]
  rfl

/-- A text is determined by its written form. -/
theorem encode?_injective {t u : Text} {s : String} (ht : encode? t = some s)
    (hu : encode? u = some s) : t = u :=
  Option.some.inj ((decode?_of_encode? ht).symm.trans (decode?_of_encode? hu))

/-- What no octet is written with is in no written form. -/
theorem notMem_encodeOctets {c : Char} (never : ∀ n < 256, c ∉ encodeOctet (UInt8.ofNat n))
    (octets : Octets) : c ∉ encodeOctets octets := by
  intro h
  obtain ⟨b, -, spelled⟩ := List.mem_flatMap.mp h
  exact never b.toNat b.toNat_lt (by simpa using spelled)

/-- Nothing in a written form is taken for the end of a name on a path. -/
theorem slash_notMem (octets : Octets) : '/' ∉ encodeOctets octets :=
  notMem_encodeOctets (by decide +kernel) octets

/-- Nothing in the written form of a text is taken for the end of a parameter or of its name. -/
theorem separator_notMem {t : Text} {s : String} {c : Char} (h : encode? t = some s)
    (separates : c = '&' ∨ c = '=') : c ∉ s.toList := by
  obtain ⟨octets, -, rfl⟩ := Option.map_eq_some_iff.mp h
  rw [String.toList_ofList]
  rcases separates with rfl | rfl <;> exact notMem_encodeOctets (by decide +kernel) octets

end SessionKeeper.Percent
