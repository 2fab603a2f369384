import SessionKeeper.Proofs.Json.Number
import SessionKeeper.Proofs.Number.Shortest

/-!
# Floating point numbers in documents

The printed form of a canonical number is its shortest digits, laid out with a point among
them or with an exponent. Wherever the layout puts the point, the digits that are read together
with the exponent that is read have the value of the shortest decimal, so the number comes back.
-/
namespace SessionKeeper

namespace Numeral

theorem ofDigits_append (cs ds : List Char) :
    ofDigits (cs ++ ds) = ofDigits cs * 10 ^ ds.length + ofDigits ds :=
  calc ofDigits (cs ++ ds) = Nat.ofDigitChars 10 ds (ofDigits cs) := Nat.ofDigitChars_append 0
    _ = 10 ^ ds.length * ofDigits cs + ofDigits ds := Nat.ofDigitChars_eq_ofDigitChars_zero
    _ = ofDigits cs * 10 ^ ds.length + ofDigits ds := by rw [Nat.mul_comm]

theorem ofDigits_zeros (n : Nat) : ofDigits (List.replicate n '0') = 0 :=
  calc ofDigits (List.replicate n '0') = 10 ^ n * 0 := Nat.ofDigitChars_replicate_zero
    _ = 0 := Nat.mul_zero _

end Numeral

namespace Json

open Numeral (ofDigits ofDigits_append ofDigits_zeros)

def StopsDigits (rest : Text) : Prop := ∀ p more, rest = p :: more → isDigit p = false

theorem EndsNumber.stopsDigits {rest : Text} (h : EndsNumber rest) : StopsDigits rest := by
  rintro p more rfl
  rcases h with rfl | rfl <;> rfl

theorem stopsDigits_cons {c : Char} (h : c.isDigit = false) (rest : Text) :
    StopsDigits (.char c :: rest) := by
  rintro p more heq
  rw [← (List.cons.inj heq).1]
  exact h

theorem takeDigits_stop (ds : List Char) (hd : ∀ c ∈ ds, c.isDigit = true) {rest : Text}
    (h : StopsDigits rest) : takeDigits (Text.ofChars ds ++ rest) = (ds, rest) := by
  have all : ∀ p ∈ Text.ofChars ds, isDigit p = true := by
    intro p hp
    obtain ⟨c, hc, rfl⟩ := List.mem_map.mp hp
    exact hd c hc
  have stop : rest.takeWhile isDigit = [] ∧ rest.dropWhile isDigit = rest := by
    cases rest with
    | nil => exact ⟨rfl, rfl⟩
    | cons p more =>
      have hp := h p more rfl
      exact ⟨List.takeWhile_cons_of_neg (by simp [hp]), List.dropWhile_cons_of_neg (by simp [hp])⟩
  rw [takeDigits, List.takeWhile_append_of_pos all, List.dropWhile_append_of_pos all, stop.1, stop.2,
    List.append_nil, Utf8.scalars_ofChars]

/-- That digits do not begin with a zero that would stand alone. -/
def LeadsDigits (ds : List Char) : Prop := ds = ['0'] ∨ ∃ c cs, ds = c :: cs ∧ c ≠ '0'

/-- What is read once the digits at the front of a number have been taken. -/
def readRest (negative : Bool) (whole : List Char) (rest : Text) : Outcome (Json × Text) :=
  if whole.isEmpty then malformed
  else
    let (fraction, rest) := takeFraction rest
    let (exponent?, rest) := takeExponent rest
    if fraction.isEmpty && exponent?.isNone then
      if 4300 < whole.length then .error (.beyond (.digits (some whole.length)))
      else
        let n : Int := ofDigits whole
        .ok (.int (if negative then -n else n), rest)
    else
      let digits := ofDigits (whole ++ fraction)
      .ok (.float (.ofDecimal negative digits (exponent?.getD 0 - fraction.length)), rest)

/-- The digits at the front of a number are taken first. -/
theorem readUnsigned_eq (negative : Bool) {ds : List Char} (hd : ∀ c ∈ ds, c.isDigit = true)
    (lead : LeadsDigits ds) {rest : Text} (h : StopsDigits rest) :
    readUnsigned negative (Text.ofChars ds ++ rest) = readRest negative ds rest := by
  rcases lead with rfl | ⟨c, cs, rfl, hc⟩
  · rfl
  · have taken := takeDigits_stop (c :: cs) hd h
    rw [readUnsigned]
    · rw [taken]
      rfl
    · intro more heq
      exact hc (Point.char.inj (List.cons.inj heq).1)

theorem takeFraction_point {ds : List Char} (hd : ∀ c ∈ ds, c.isDigit = true) (some : ds ≠ [])
    {rest : Text} (h : StopsDigits rest) :
    takeFraction (.char '.' :: (Text.ofChars ds ++ rest)) = (ds, rest) := by
  rw [takeFraction]
  simp only [takeDigits_stop ds hd h, List.isEmpty_eq_false_iff.mpr some]
  rfl

/-- A number with a point is read as its digits and the count of those behind the point. -/
theorem readUnsigned_point (negative : Bool) {whole fraction : List Char}
    (hw : ∀ c ∈ whole, c.isDigit = true) (lead : LeadsDigits whole)
    (hf : ∀ c ∈ fraction, c.isDigit = true) (some : fraction ≠ []) {rest : Text}
    (h : EndsNumber rest) :
    readUnsigned negative (Text.ofChars (whole ++ '.' :: fraction) ++ rest) =
      .ok (.float (.ofDecimal negative (ofDigits (whole ++ fraction)) (-fraction.length)), rest) := by
  have hs : Text.ofChars (whole ++ '.' :: fraction) ++ rest =
      Text.ofChars whole ++ .char '.' :: (Text.ofChars fraction ++ rest) := by
    simp [Text.ofChars]
  have stops := stopsDigits_cons (show '.'.isDigit = false from rfl) (Text.ofChars fraction ++ rest)
  have filled : whole.isEmpty = false := by
    rcases lead with rfl | ⟨c, cs, rfl, -⟩ <;> rfl
  rw [hs, readUnsigned_eq negative hw lead stops, readRest]
  simp only [filled, takeFraction_point hf some h.stopsDigits, takeExponent_end h,
    List.isEmpty_eq_false_iff.mpr some]
  simp

/-- The exponent that is read behind its letter and sign. -/
theorem takeExponent_sign (below : Bool) {size : List Char} (hs : ∀ c ∈ size, c.isDigit = true)
    (some : size ≠ []) {rest : Text} (h : StopsDigits rest) :
    takeExponent (.char 'e' :: .char (if below then '-' else '+') :: (Text.ofChars size ++ rest)) =
      (Option.some (if below then -(ofDigits size : Int) else ofDigits size), rest) := by
  have filled := List.isEmpty_eq_false_iff.mpr some
  cases below <;>
    simp [takeExponent, takeDigits_stop size hs h, filled]

theorem readUnsigned_exponent (negative below : Bool) {c : Char} {fraction size : List Char}
    (hc : c.isDigit = true) (nonzero : c ≠ '0') (hf : ∀ c ∈ fraction, c.isDigit = true)
    (hs : ∀ c ∈ size, c.isDigit = true) (some : size ≠ []) {rest : Text} (h : EndsNumber rest) :
    readUnsigned negative (Text.ofChars ((match c :: fraction with
        | [] => ['0']
        | [c] => [c]
        | c :: rest => c :: '.' :: rest) ++ 'e' :: (if below then '-' else '+') :: size) ++ rest) =
      .ok (.float (.ofDecimal negative (ofDigits (c :: fraction))
        ((if below then -(ofDigits size : Int) else ofDigits size) - fraction.length)), rest) := by
  have exponent := takeExponent_sign below hs some h.stopsDigits
  have hw : ∀ d ∈ [c], d.isDigit = true := by simpa using hc
  have lead : LeadsDigits [c] := Or.inr ⟨c, [], rfl, nonzero⟩
  generalize (if below then '-' else '+') = sign at exponent ⊢
  cases fraction with
  | nil =>
    have hs : Text.ofChars ([c] ++ 'e' :: sign :: size) ++ rest =
        Text.ofChars [c] ++ .char 'e' :: .char sign :: (Text.ofChars size ++ rest) := by
      simp [Text.ofChars]
    have stops := stopsDigits_cons (show 'e'.isDigit = false from rfl)
      (.char sign :: (Text.ofChars size ++ rest))
    have point : takeFraction (.char 'e' :: .char sign :: (Text.ofChars size ++ rest)) =
        ([], .char 'e' :: .char sign :: (Text.ofChars size ++ rest)) := rfl
    dsimp only
    rw [hs, readUnsigned_eq negative hw lead stops, readRest]
    simp only [point, exponent]
    simp
  | cons d ds =>
    have hs : Text.ofChars ((c :: '.' :: d :: ds) ++ 'e' :: sign :: size) ++ rest =
        Text.ofChars [c] ++ .char '.' :: (Text.ofChars (d :: ds) ++
          (.char 'e' :: .char sign :: (Text.ofChars size ++ rest))) := by
      simp [Text.ofChars]
    have stops := stopsDigits_cons (show '.'.isDigit = false from rfl)
      (Text.ofChars (d :: ds) ++ (.char 'e' :: .char sign :: (Text.ofChars size ++ rest)))
    have point := takeFraction_point hf (List.cons_ne_nil d ds)
      (stopsDigits_cons (show 'e'.isDigit = false from rfl)
        (.char sign :: (Text.ofChars size ++ rest)))
    dsimp only
    rw [hs, readUnsigned_eq negative hw lead stops, readRest]
    simp only [point, exponent]
    simp

/-- The digits of the exponent of a number, two at least. -/
theorem exponentDigits (n : Nat) {size : List Char}
    (h : size = if (toString n).toList.length < 2 then '0' :: (toString n).toList
      else (toString n).toList) :
    (∀ c ∈ size, c.isDigit = true) ∧ size ≠ [] ∧ ofDigits size = n := by
  have text : (toString n).toList = Nat.toDigits 10 n := Nat.toList_repr
  have digits := Numeral.isDigit_toDigits n
  rw [text] at h
  subst h
  split_ifs
  · refine ⟨fun c hc => ?_, List.cons_ne_nil _ _, ?_⟩
    · rcases List.mem_cons.mp hc with rfl | hc
      · rfl
      · exact digits c hc
    · have value := ofDigits_append ['0'] (Nat.toDigits 10 n)
      rw [show ofDigits ['0'] = 0 from rfl, Nat.zero_mul, Nat.zero_add,
        Numeral.ofDigits_toDigits] at value
      exact value
  · exact ⟨digits, Nat.toDigits_ne_nil, Numeral.ofDigits_toDigits n⟩

theorem readUnsigned_front (negative : Bool) {cs : List Char} (hd : ∀ c ∈ cs, c.isDigit = true)
    (some : cs ≠ []) (zeros : Nat) {rest : Text} (h : EndsNumber rest) :
    readUnsigned negative (Text.ofChars ('0' :: '.' :: List.replicate zeros '0' ++ cs) ++ rest) =
      .ok (.float (.ofDecimal negative (ofDigits cs) (-(zeros : Int) - cs.length)), rest) := by
  have fraction : ∀ c ∈ List.replicate zeros '0' ++ cs, c.isDigit = true := by
    intro c hc
    rcases List.mem_append.mp hc with hc | hc
    · rw [(List.mem_replicate.mp hc).2]
      rfl
    · exact hd c hc
  have value : ofDigits (['0'] ++ (List.replicate zeros '0' ++ cs)) = ofDigits cs := by
    rw [ofDigits_append, ofDigits_append, ofDigits_zeros, show ofDigits ['0'] = 0 from rfl]
    simp
  have zero : ∀ c ∈ ['0'], c.isDigit = true := List.forall_mem_singleton.mpr rfl
  have read := readUnsigned_point negative zero (Or.inl rfl) fraction (by simp [some]) h
  rw [value, List.length_append, List.length_replicate] at read
  refine read.trans ?_
  rw [show -((zeros + cs.length : Nat) : Int) = -(zeros : Int) - cs.length by push_cast; ring]

/-- The layout with the point among the digits or behind them. -/
theorem readUnsigned_among (negative : Bool) {cs : List Char} (hd : ∀ c ∈ cs, c.isDigit = true)
    {first : Char} {others : List Char} (hcs : cs = first :: others) (nonzero : first ≠ '0')
    {places : Nat} (hp : 0 < places) {rest : Text} (h : EndsNumber rest) :
    readUnsigned negative (Text.ofChars (cs.take places ++
        List.replicate (places - (cs.take places).length) '0' ++
          '.' :: (if (cs.drop places).isEmpty then ['0'] else cs.drop places)) ++ rest) =
      .ok (.float (.ofDecimal negative (ofDigits cs) ((places : Int) - cs.length)), rest) := by
  have zero : ∀ c ∈ ['0'], c.isDigit = true := List.forall_mem_singleton.mpr rfl
  have lead (more : List Char) : LeadsDigits (cs.take places ++ more) := by
    obtain ⟨k, rfl⟩ : ∃ k, places = k + 1 := ⟨places - 1, by omega⟩
    exact Or.inr ⟨first, others.take k ++ more, by rw [hcs]; rfl, nonzero⟩
  rcases Nat.lt_or_ge places cs.length with short | long
  · have taken : (cs.take places).length = places := List.length_take_of_le short.le
    have left : (cs.drop places).isEmpty = false := by
      rw [List.isEmpty_eq_false_iff]
      simp [short]
    rw [taken, Nat.sub_self, List.replicate_zero, left, if_neg Bool.false_ne_true]
    have front := lead []
    rw [List.append_nil] at front
    have read := readUnsigned_point negative (fun c hc => hd c (List.mem_of_mem_take hc)) front
      (fun c hc => hd c (List.mem_of_mem_drop hc)) (List.isEmpty_eq_false_iff.mp left) h
    rw [List.take_append_drop, List.length_drop] at read
    rw [List.append_nil]
    refine read.trans ?_
    rw [show -((cs.length - places : Nat) : Int) = (places : Int) - cs.length by omega]
  · rw [List.take_of_length_le long, List.drop_of_length_le long, List.isEmpty_nil, if_pos rfl]
    have whole : ∀ c ∈ cs ++ List.replicate (places - cs.length) '0', c.isDigit = true := by
      intro c hc
      rcases List.mem_append.mp hc with hc | hc
      · exact hd c hc
      · rw [(List.mem_replicate.mp hc).2]
        rfl
    have front := lead (List.replicate (places - cs.length) '0')
    rw [List.take_of_length_le long] at front
    refine (readUnsigned_point negative whole front zero (by simp) h).trans ?_
    have value : ofDigits (cs ++ List.replicate (places - cs.length) '0' ++ ['0']) =
        ofDigits cs * 10 ^ (places - cs.length) * 10 := by
      rw [ofDigits_append, ofDigits_append, ofDigits_zeros]
      simp [ofDigits]
    rw [value, Double.ofDecimal_congr negative (b := ofDigits cs) (f := (places : Int) - cs.length)]
    push_cast
    rw [List.length_singleton, show (places : Int) - cs.length = ((places - cs.length : Nat) : Int) by
      omega, zpow_natCast]
    norm_num
    ring

/-- However the digits of a number are laid out, they are read with the exponent that gives the
value. -/
theorem readUnsigned_layout (negative : Bool) {cs : List Char} (hd : ∀ c ∈ cs, c.isDigit = true)
    {first : Char} {others : List Char} (hcs : cs = first :: others) (nonzero : first ≠ '0')
    (point : Int) {rest : Text} (h : EndsNumber rest) :
    readUnsigned negative (Text.ofChars (Double.layout cs point) ++ rest) =
      .ok (.float (.ofDecimal negative (ofDigits cs) (point - cs.length)), rest) := by
  have some : cs ≠ [] := by simp [hcs]
  rw [Double.layout.eq_def]
  split_ifs with positional front
  · have read := readUnsigned_front negative hd some (-point).toNat h
    rwa [show -((-point).toNat : Int) = point by omega] at read
  · have read := readUnsigned_among negative hd hcs nonzero
      (show 0 < point.toNat by omega) h
    rwa [show (point.toNat : Int) = point by omega] at read
  · dsimp only
    obtain ⟨digits, filled, value⟩ := exponentDigits (point - 1).natAbs rfl
    have head := hd first (by simp [hcs])
    have tail : ∀ c ∈ others, c.isDigit = true := fun c hc => hd c (by simp [hcs, hc])
    have read := readUnsigned_exponent negative (decide (point - 1 < 0)) head nonzero tail digits
      filled h
    rw [value] at read
    have exponent : (if decide (point - 1 < 0) = true then -((point - 1).natAbs : Int)
        else (point - 1).natAbs) = point - 1 := by
      split_ifs with below
      · have := of_decide_eq_true below
        omega
      · have := of_decide_eq_false (eq_false_of_ne_true below)
        omega
    rw [exponent] at read
    simp only [decide_eq_true_eq] at read
    subst hcs
    refine read.trans ?_
    rw [List.length_cons, show point - 1 - (others.length : Int) = point - (others.length + 1 : Nat) by
      push_cast; ring]

/-- The digits without their trailing zeros, and those zeros. -/
theorem dropZeros_spec (cs : List Char) : ∃ zeros,
    cs = (Double.dropZeros cs).1 ++ List.replicate zeros '0' := by
  have zeros : (cs.reverse.takeWhile (· = '0')).reverse =
      List.replicate (cs.reverse.takeWhile (· = '0')).length '0' := by
    rw [List.eq_replicate_iff]
    refine ⟨List.length_reverse, fun c hc => ?_⟩
    simpa using List.all_eq_true.mp List.all_takeWhile c (List.mem_reverse.mp hc)
  have split : (cs.reverse.dropWhile (· = '0')).reverse ++
      (cs.reverse.takeWhile (· = '0')).reverse = cs := by
    rw [← List.reverse_append, List.takeWhile_append_dropWhile, List.reverse_reverse]
  have front : (Double.dropZeros cs).1 = (cs.reverse.dropWhile (· = '0')).reverse := by
    have taken : ∀ a b : List Char, a ++ b = cs → cs.take (cs.length - b.length) = a := by
      rintro a b rfl
      simp
    have h := taken _ _ split
    rwa [List.length_reverse] at h
  exact ⟨(cs.reverse.takeWhile (· = '0')).length, by rw [front, ← zeros, split]⟩

/-- The text of a positive canonical number is a layout of digits that have its value. -/
theorem magnitudeText_layout {negative : Bool} {significand : Nat} {exponent : Int}
    (canonical : (Double.finite negative significand exponent).IsCanonical) (hs : 0 < significand) :
    ∃ first others point, Double.magnitudeText significand exponent =
        Double.layout (first :: others) point ∧
      (∀ c ∈ first :: others, c.isDigit = true) ∧ first ≠ '0' ∧
      Double.ofDecimal negative (ofDigits (first :: others))
        (point - (first :: others).length) = .finite negative significand exponent := by
  have back := Double.shortest_readsBack hs canonical
  rw [Double.magnitudeText, if_neg hs.ne']
  dsimp only
  generalize (Double.shortest significand exponent).digits = digits at back ⊢
  generalize (Double.shortest significand exponent).point = point at back ⊢
  have positive : 0 < digits := by
    refine Nat.pos_of_ne_zero fun h0 => ?_
    rw [h0, Double.ofDecimal, if_pos rfl] at back
    have := (Double.finite.inj back).2.1
    omega
  have text : (toString digits).toList = Nat.toDigits 10 digits := Nat.toList_repr
  obtain ⟨zeros, split⟩ := dropZeros_spec (Nat.toDigits 10 digits)
  have isDigit := Numeral.isDigit_toDigits digits
  have value := Numeral.ofDigits_toDigits digits
  have head := Numeral.head?_toDigits digits positive
  have length := congrArg List.length split
  rw [List.length_append, List.length_replicate] at length
  rw [text, length]
  generalize (Double.dropZeros (Nat.toDigits 10 digits)).1 = cs at split length ⊢
  rw [split] at isDigit value head
  rw [ofDigits_append, ofDigits_zeros, List.length_replicate, Nat.add_zero] at value
  cases cs with
  | nil =>
    rw [show ofDigits [] = 0 from rfl, Nat.zero_mul] at value
    omega
  | cons first others =>
    refine ⟨first, others, _, rfl, fun c hc => isDigit c (List.mem_append_left _ hc),
      by simpa using head, ?_⟩
    have decimal : Double.ofDecimal negative (ofDigits (first :: others))
        (point + ((first :: others).length + zeros : Nat) - (first :: others).length) =
          Double.ofDecimal negative digits point := by
      refine Double.ofDecimal_congr negative ?_
      rw [← value, Nat.cast_add, show point + (((first :: others).length : Int) + zeros) -
        (first :: others).length = (zeros : Int) + point by ring, zpow_add₀ (by norm_num),
        zpow_natCast]
      push_cast
      ring
    rw [decimal, Double.ofDecimal_withSign, back]
    rfl

theorem exists_layout_cons {first : Char} (others : List Char) (hd : first.isDigit = true)
    (point : Int) : ∃ c cs, Double.layout (first :: others) point = c :: cs ∧ c.isDigit = true := by
  rw [Double.layout.eq_def]
  split_ifs with positional front
  · exact ⟨_, _, rfl, rfl⟩
  · obtain ⟨k, hk⟩ : ∃ k, point.toNat = k + 1 := ⟨point.toNat - 1, by omega⟩
    rw [hk]
    exact ⟨_, _, rfl, hd⟩
  · cases others <;> exact ⟨_, _, rfl, hd⟩

theorem exists_magnitudeText_cons {negative : Bool} {significand : Nat} {exponent : Int}
    (canonical : (Double.finite negative significand exponent).IsCanonical) :
    ∃ c cs, Double.magnitudeText significand exponent = c :: cs ∧ c.isDigit = true := by
  rcases Nat.eq_zero_or_pos significand with rfl | hs
  · exact ⟨_, _, rfl, rfl⟩
  · obtain ⟨first, others, point, text, digits, -⟩ := magnitudeText_layout canonical hs
    rw [text]
    exact exists_layout_cons others (digits first List.mem_cons_self) point

/-- The text of the magnitude of a canonical number is read as the number with the sign that was
read before. -/
theorem readUnsigned_magnitudeText {negative : Bool} {significand : Nat} {exponent : Int}
    (canonical : (Double.finite negative significand exponent).IsCanonical) {rest : Text}
    (h : EndsNumber rest) :
    readUnsigned negative (Text.ofChars (Double.magnitudeText significand exponent) ++ rest) =
      .ok (.float (.finite negative significand exponent), rest) := by
  rcases Nat.eq_zero_or_pos significand with rfl | hs
  · have zero : ∀ c ∈ ['0'], c.isDigit = true := List.forall_mem_singleton.mpr rfl
    rw [canonical.2.2.2.resolve_left (by decide)]
    exact readUnsigned_point negative zero (Or.inl rfl) zero (by simp) h
  · obtain ⟨first, others, point, text, digits, nonzero, value⟩ := magnitudeText_layout canonical hs
    rw [text, readUnsigned_layout negative digits rfl nonzero _ h, value]

end Json

end SessionKeeper
