import Mathlib.Tactic
import SessionKeeper.Number.Order
import SessionKeeper.Time.Duration

/-!
# Rounding keeps the order

The number nearest to the greater of two quotients is not the lesser one. The order of
magnitude of a quotient is the power of two below it, so a quotient of a greater order is
rounded to a multiple of a greater unit, and of one order the nearest multiples of the same
unit are compared.
-/
namespace SessionKeeper

theorem roundQuotient_mono {m n : Nat} (h : m ≤ n) (d : Nat) : roundQuotient m d ≤ roundQuotient n d := by
  have hq : m / d ≤ n / d := Nat.div_le_div_right h
  have hm := Nat.div_add_mod m d
  have hn := Nat.div_add_mod n d
  have near (k : Nat) : k / d ≤ roundQuotient k d ∧ roundQuotient k d ≤ k / d + 1 := by
    simp only [roundQuotient]
    split_ifs <;> omega
  rcases Nat.eq_or_lt_of_le hq with heq | hlt
  · rw [heq] at hm
    have hr : m % d ≤ n % d := by omega
    simp only [roundQuotient, heq]
    split_ifs <;> omega
  · have hm := (near m).2
    have hn := (near n).1
    omega

theorem roundQuotient_le {n d k : Nat} (hd : 0 < d) (h : n ≤ k * d) : roundQuotient n d ≤ k := by
  rw [← roundQuotient_mul k d hd]
  exact roundQuotient_mono h d

theorem le_roundQuotient {n d k : Nat} (hd : 0 < d) (h : k * d ≤ n) : k ≤ roundQuotient n d := by
  rw [← roundQuotient_mul k d hd]
  exact roundQuotient_mono h d

namespace Double

theorem two_zpow_ofNat (k : Int) (h : 0 ≤ k) : (2 : ℚ) ^ k = ((Nat.pow 2 k.toNat : Nat) : ℚ) := by
  obtain ⟨n, rfl⟩ := Int.eq_ofNat_of_zero_le h
  simp

theorem two_zpow_neg (k : Int) (h : k < 0) : (2 : ℚ) ^ k = ((Nat.pow 2 (-k).toNat : Nat) : ℚ)⁻¹ := by
  rw [← two_zpow_ofNat (-k) (by omega), zpow_neg, inv_inv]

/-- Whether a quotient reaches a power of two is decided without fractions. -/
theorem reaches_iff {n d : Nat} (hd : 0 < d) (k : Int) :
    (if 0 ≤ k then d * Nat.pow 2 k.toNat ≤ n else d ≤ n * Nat.pow 2 (-k).toNat) ↔
      (2 : ℚ) ^ k ≤ n / d := by
  have hd' : (0 : ℚ) < d := by exact_mod_cast hd
  rw [le_div_iff₀ hd']
  split_ifs with hk
  · rw [two_zpow_ofNat k hk, mul_comm]
    exact_mod_cast Iff.rfl
  · have hp : (0 : ℚ) < ((Nat.pow 2 (-k).toNat : Nat) : ℚ) := by
      exact_mod_cast Nat.pow_pos (by decide)
    rw [two_zpow_neg k (by omega), inv_mul_le_iff₀ hp, mul_comm]
    exact_mod_cast Iff.rfl

/-- A positive quotient lies between the power of two of its order and the next one. -/
theorem binaryOrder_spec {n d : Nat} (hn : 0 < n) (hd : 0 < d) :
    (2 : ℚ) ^ binaryOrder n d ≤ n / d ∧ (n : ℚ) / d < 2 ^ (binaryOrder n d + 1) := by
  have hd' : (0 : ℚ) < d := by exact_mod_cast hd
  have n_low : (2 : ℚ) ^ n.log2 ≤ n := by exact_mod_cast Nat.log2_self_le hn.ne'
  have n_high : (n : ℚ) < 2 ^ (n.log2 + 1) := by exact_mod_cast Nat.lt_log2_self
  have d_low : (2 : ℚ) ^ d.log2 ≤ d := by exact_mod_cast Nat.log2_self_le hd.ne'
  have d_high : (d : ℚ) < 2 ^ (d.log2 + 1) := by exact_mod_cast Nat.lt_log2_self
  have two : (2 : ℚ) ≠ 0 := two_ne_zero
  have low : (2 : ℚ) ^ ((n.log2 : Int) - d.log2 - 1) ≤ n / d := by
    have split : (2 : ℚ) ^ ((n.log2 : Int) - d.log2 - 1) = 2 ^ n.log2 / 2 ^ (d.log2 + 1) := by
      rw [sub_sub, zpow_sub₀ two]
      norm_cast
    rw [split]
    exact div_le_div₀ (by positivity) n_low hd' d_high.le
  have high : (n : ℚ) / d < 2 ^ ((n.log2 : Int) - d.log2 + 1) := by
    have split : (2 : ℚ) ^ ((n.log2 : Int) - d.log2 + 1) = 2 ^ (n.log2 + 1) / 2 ^ d.log2 := by
      rw [sub_add_eq_add_sub, zpow_sub₀ two]
      norm_cast
    rw [split]
    exact div_lt_div₀ n_high d_low (by positivity) (by positivity)
  have reaches := reaches_iff (n := n) hd ((n.log2 : Int) - d.log2)
  by_cases h : (2 : ℚ) ^ ((n.log2 : Int) - d.log2) ≤ n / d
  · have order : binaryOrder n d = (n.log2 : Int) - d.log2 := if_pos (reaches.mpr h)
    rw [order]
    exact ⟨h, high⟩
  · have order : binaryOrder n d = (n.log2 : Int) - d.log2 - 1 :=
      if_neg fun hr => h (reaches.mp hr)
    rw [order, sub_add_cancel]
    exact ⟨low, not_le.mp h⟩

theorem binaryOrder_mono {m n d : Nat} (hm : 0 < m) (hd : 0 < d) (h : m ≤ n) :
    binaryOrder m d ≤ binaryOrder n d := by
  have hd' : (0 : ℚ) < d := by exact_mod_cast hd
  have quotients : (m : ℚ) / d ≤ n / d := by
    rw [div_le_div_iff_of_pos_right hd']
    exact_mod_cast h
  have hlt : (2 : ℚ) ^ binaryOrder m d < 2 ^ (binaryOrder n d + 1) :=
    (binaryOrder_spec hm hd).1.trans_lt (quotients.trans_lt (binaryOrder_spec (hm.trans_le h) hd).2)
  have := (zpow_lt_zpow_iff_right₀ one_lt_two).mp hlt
  omega

/-- The exponent to which a positive quotient is rounded. -/
def unit (n d : Nat) : Int := max (binaryOrder n d - 52) (-1074)

/-- The multiple of a power of two that is nearest to a quotient. -/
def multiple (n d : Nat) (exponent : Int) : Nat :=
  if 0 ≤ exponent then roundQuotient n (d * Nat.pow 2 exponent.toNat)
  else roundQuotient (n * Nat.pow 2 (-exponent).toNat) d

/-- A significand of one bit too many is halved, and what is too large is infinite. -/
def settle (negative : Bool) (significand : Nat) (exponent : Int) : Double :=
  let (significand, exponent) :=
    if significand = Nat.pow 2 53 then (Nat.pow 2 52, exponent + 1) else (significand, exponent)
  if 971 < exponent then .infinity negative else .finite negative significand exponent

theorem ofRatio_eq {n : Nat} (hn : n ≠ 0) (negative : Bool) (d : Nat) :
    ofRatio negative n d = settle negative (multiple n d (unit n d)) (unit n d) := by
  rw [ofRatio, if_neg hn]
  rfl

theorem multiple_mono {m n : Nat} (h : m ≤ n) (d : Nat) (exponent : Int) :
    multiple m d exponent ≤ multiple n d exponent := by
  rw [multiple, multiple]
  split_ifs
  · exact roundQuotient_mono h _
  · exact roundQuotient_mono (Nat.mul_le_mul_right _ h) d

theorem multiple_le {n d k : Nat} (hd : 0 < d) {exponent : Int}
    (h : (n : ℚ) / d ≤ k * 2 ^ exponent) : multiple n d exponent ≤ k := by
  have hd' : (0 : ℚ) < d := by exact_mod_cast hd
  rw [div_le_iff₀ hd'] at h
  rw [multiple]
  split_ifs with he
  · rw [two_zpow_ofNat exponent he] at h
    refine roundQuotient_le (Nat.mul_pos hd (Nat.pow_pos (by decide))) ?_
    rw [Nat.mul_comm d, ← Nat.mul_assoc]
    exact_mod_cast h
  · have hp : (0 : ℚ) < ((Nat.pow 2 (-exponent).toNat : Nat) : ℚ) := by
      exact_mod_cast Nat.pow_pos (by decide)
    rw [two_zpow_neg exponent (by omega), mul_right_comm, ← div_eq_mul_inv, le_div_iff₀ hp] at h
    refine roundQuotient_le hd ?_
    exact_mod_cast h

theorem le_multiple {n d k : Nat} (hd : 0 < d) {exponent : Int}
    (h : k * 2 ^ exponent ≤ (n : ℚ) / d) : k ≤ multiple n d exponent := by
  have hd' : (0 : ℚ) < d := by exact_mod_cast hd
  rw [le_div_iff₀ hd'] at h
  rw [multiple]
  split_ifs with he
  · rw [two_zpow_ofNat exponent he] at h
    refine le_roundQuotient (Nat.mul_pos hd (Nat.pow_pos (by decide))) ?_
    rw [Nat.mul_comm d, ← Nat.mul_assoc]
    exact_mod_cast h
  · have hp : (0 : ℚ) < ((Nat.pow 2 (-exponent).toNat : Nat) : ℚ) := by
      exact_mod_cast Nat.pow_pos (by decide)
    rw [two_zpow_neg exponent (by omega), mul_right_comm, ← div_eq_mul_inv, div_le_iff₀ hp] at h
    refine le_roundQuotient hd ?_
    exact_mod_cast h

/-- The exact value of a finite number. -/
def value (negative : Bool) (significand : Nat) (exponent : Int) : ℚ :=
  (if negative then -(significand : ℚ) else significand) * 2 ^ exponent

theorem toRatio?_finite (negative : Bool) (significand : Nat) (exponent : Int) :
    ∃ (n : Int) (d : Nat), (Double.finite negative significand exponent).toRatio? = some (n, d) ∧
      0 < d ∧ (n : ℚ) / d = value negative significand exponent := by
  by_cases he : 0 ≤ exponent
  · have hm : magnitude significand exponent = (significand * Nat.pow 2 exponent.toNat, 1) := if_pos he
    refine ⟨_, _, by rw [toRatio?, hm], Nat.one_pos, ?_⟩
    rw [value, two_zpow_ofNat exponent he]
    split_ifs <;> push_cast <;> ring
  · have hm : magnitude significand exponent = (significand, Nat.pow 2 (-exponent).toNat) := if_neg he
    refine ⟨_, Nat.pow 2 (-exponent).toNat, by rw [toRatio?, hm], Nat.pow_pos (by decide), ?_⟩
    rw [value, two_zpow_neg exponent (by omega)]
    split_ifs <;> push_cast <;> ring

theorem lt_finite_iff (a b : Bool) (m n : Nat) (e f : Int) :
    (Double.finite a m e).lt (.finite b n f) = true ↔ value a m e < value b n f := by
  obtain ⟨p, q, hm, hq, hv⟩ := toRatio?_finite a m e
  obtain ⟨r, t, hn, ht, hw⟩ := toRatio?_finite b n f
  have hq' : (0 : ℚ) < q := by exact_mod_cast hq
  have ht' : (0 : ℚ) < t := by exact_mod_cast ht
  have hlt : (Double.finite a m e).lt (.finite b n f) = decide (p * t < r * q) := by
    rw [Double.lt.eq_def]
    simp only [hm, hn]
  rw [hlt, decide_eq_true_iff, ← hv, ← hw, div_lt_div_iff₀ hq' ht']
  exact_mod_cast Iff.rfl

/-- Of two numbers that are not negative the first is at most the second: it lies below whatever the
second one lies below. -/
def AtMost (x y : Double) : Prop := ∀ z, y.lt z = true → x.lt z = true

theorem atMost_infinity (x : Double) : x.AtMost (.infinity false) := by
  intro z hz
  cases z <;> nomatch hz

theorem finite_atMost {m n : Nat} {e f : Int} (h : value false m e ≤ value false n f) :
    (Double.finite false m e).AtMost (.finite false n f) := by
  intro z hz
  cases z with
  | nan => nomatch hz
  | infinity negative => exact hz
  | finite negative significand exponent =>
    rw [lt_finite_iff] at hz ⊢
    exact h.trans_lt hz

def settled (significand : Nat) (exponent : Int) : Int :=
  if significand = Nat.pow 2 53 then exponent + 1 else exponent

/-- Settling does not change the value of what is not too large. -/
theorem settle_cases (significand : Nat) (exponent : Int) :
    (971 < settled significand exponent ∧ settle false significand exponent = .infinity false) ∨
    (settled significand exponent ≤ 971 ∧ ∃ m e, settle false significand exponent = .finite false m e ∧
      value false m e = significand * 2 ^ exponent) := by
  have two : (2 : ℚ) ≠ 0 := two_ne_zero
  rw [settle, settled]
  by_cases hs : significand = Nat.pow 2 53
  · rw [if_pos hs, if_pos hs]
    dsimp only
    by_cases hl : 971 < exponent + 1
    · exact .inl ⟨hl, if_pos hl⟩
    · refine .inr ⟨by omega, _, _, if_neg hl, ?_⟩
      rw [value, hs, zpow_add_one₀ two]
      norm_num
      ring
  · rw [if_neg hs, if_neg hs]
    dsimp only
    by_cases hl : 971 < exponent
    · exact .inl ⟨hl, if_pos hl⟩
    · exact .inr ⟨by omega, _, _, if_neg hl, by simp [value]⟩

theorem settle_atMost {m n : Nat} {e f : Int} (exponents : settled m e ≤ settled n f)
    (values : (m : ℚ) * 2 ^ e ≤ n * 2 ^ f) : (settle false m e).AtMost (settle false n f) := by
  rcases settle_cases n f with ⟨-, hn⟩ | ⟨hf, n', f', hn, hw⟩
  · rw [hn]
    exact atMost_infinity _
  · rcases settle_cases m e with ⟨he, -⟩ | ⟨-, m', e', hm, hv⟩
    · omega
    · rw [hm, hn]
      refine finite_atMost ?_
      rw [hv, hw]
      exact values

theorem unit_mono {m n d : Nat} (hm : 0 < m) (hd : 0 < d) (h : m ≤ n) : unit m d ≤ unit n d := by
  have := binaryOrder_mono hm hd h
  rw [unit, unit]
  omega

/-- A quotient is rounded to 53 bits at most. -/
theorem multiple_unit_le {n d : Nat} (hn : 0 < n) (hd : 0 < d) :
    multiple n d (unit n d) ≤ Nat.pow 2 53 := by
  refine multiple_le hd ((binaryOrder_spec hn hd).2.le.trans ?_)
  have exponents : binaryOrder n d + 1 ≤ 53 + unit n d := by
    rw [unit]
    omega
  have hp : (2 : ℚ) ^ (53 + unit n d) = ((Nat.pow 2 53 : Nat) : ℚ) * 2 ^ unit n d := by
    rw [zpow_add₀ two_ne_zero]
    norm_num
  rw [← hp]
  exact zpow_le_zpow_right₀ one_le_two exponents

/-- A quotient that is rounded to a greater unit than another one keeps all its 53 bits. -/
theorem le_multiple_unit {n d : Nat} (hn : 0 < n) (hd : 0 < d) (h : -1074 < unit n d) :
    Nat.pow 2 52 ≤ multiple n d (unit n d) := by
  have order : binaryOrder n d = 52 + unit n d := by
    rw [unit] at h ⊢
    omega
  refine le_multiple hd (le_of_eq_of_le ?_ (binaryOrder_spec hn hd).1)
  rw [order, zpow_add₀ two_ne_zero]
  norm_num

theorem zero_atMost (n d : Nat) : (zero false).AtMost (ofRatio false n d) := by
  by_cases hn : n = 0
  · rw [ofRatio, if_pos hn]
    exact fun _ => id
  · rw [ofRatio_eq hn]
    rcases settle_cases (multiple n d (unit n d)) (unit n d) with ⟨-, h⟩ | ⟨-, m, e, h, hv⟩
    · rw [h]
      exact atMost_infinity _
    · rw [h]
      refine finite_atMost ?_
      rw [hv, value]
      simp only [Bool.false_eq_true, if_false, Nat.cast_zero, zero_mul]
      positivity

/-- The number nearest to the greater of two quotients is not the lesser one. -/
theorem ofRatio_atMost {m n d : Nat} (hd : 0 < d) (h : m ≤ n) :
    (ofRatio false m d).AtMost (ofRatio false n d) := by
  rcases Nat.eq_zero_or_pos m with rfl | hm
  · exact zero_atMost n d
  have hn : 0 < n := hm.trans_le h
  have bound := multiple_unit_le hm hd
  have bound' := multiple_unit_le hn hd
  rw [ofRatio_eq hm.ne', ofRatio_eq hn.ne']
  rcases eq_or_lt_of_le (unit_mono hm hd h) with heq | hlt
  · have multiples : multiple m d (unit m d) ≤ multiple n d (unit n d) :=
      heq ▸ multiple_mono h d (unit m d)
    refine settle_atMost ?_ ?_
    · rw [settled, settled]
      split_ifs <;> omega
    · rw [heq] at multiples ⊢
      exact mul_le_mul_of_nonneg_right (by exact_mod_cast multiples) (by positivity)
  · have full := le_multiple_unit hn hd (lt_of_le_of_lt (le_max_right _ _) hlt)
    refine settle_atMost ?_ ?_
    · rw [settled, settled]
      split_ifs <;> omega
    · calc (multiple m d (unit m d) : ℚ) * 2 ^ unit m d
          ≤ (Nat.pow 2 53 : Nat) * 2 ^ unit m d := by gcongr
        _ = (Nat.pow 2 52 : Nat) * 2 ^ (unit m d + 1) := by
          rw [zpow_add_one₀ two_ne_zero]
          norm_num
          ring
        _ ≤ (Nat.pow 2 52 : Nat) * 2 ^ unit n d := by
          gcongr
          · exact one_le_two
          · omega
        _ ≤ multiple n d (unit n d) * 2 ^ unit n d := by gcongr

/-- A quotient that is not too small is rounded to more than zero. -/
theorem zero_lt_ofRatio {n d : Nat} (hn : 0 < n) (hd : 0 < d) (h : (2 : ℚ) ^ (-1021 : Int) ≤ n / d) :
    (zero false).lt (ofRatio false n d) = true := by
  have order : -1021 < binaryOrder n d + 1 :=
    (zpow_lt_zpow_iff_right₀ one_lt_two).mp (h.trans_lt (binaryOrder_spec hn hd).2)
  have full := le_multiple_unit hn hd (by rw [unit]; omega)
  have positive : (0 : ℚ) < multiple n d (unit n d) := by
    exact_mod_cast (Nat.pow_pos (by decide)).trans_le full
  rw [ofRatio_eq hn.ne']
  rcases settle_cases (multiple n d (unit n d)) (unit n d) with ⟨-, hs⟩ | ⟨-, m, e, hs, hv⟩
  · rw [hs]
    rfl
  · rw [hs, zero, lt_finite_iff, hv, value]
    simp only [Bool.false_eq_true, if_false, Nat.cast_zero, zero_mul]
    positivity

end Double

namespace Duration

/-- Of two durations that are not negative the longer one does not have fewer seconds. -/
theorem seconds_atMost {a b : Duration} (ha : 0 ≤ a.micros) (h : a.micros ≤ b.micros) :
    a.seconds.AtMost b.seconds := by
  have hb : ¬ b.micros < 0 := by omega
  rw [seconds, seconds, Double.ofIntRatio, Double.ofIntRatio, decide_eq_false (not_lt.mpr ha),
    decide_eq_false hb]
  exact Double.ofRatio_atMost (by decide) (by omega)

/-- A positive duration has a positive number of seconds. -/
theorem zero_lt_seconds {d : Duration} (h : 0 < d.micros) :
    (Duration.mk 0).seconds.lt d.seconds = true := by
  have hd : ¬ d.micros < 0 := by omega
  rw [seconds, seconds, Double.ofIntRatio, Double.ofIntRatio, decide_eq_false hd]
  have whole : 0 < d.micros.natAbs := by omega
  have one : (1 : ℚ) ≤ d.micros.natAbs := by exact_mod_cast whole
  refine Double.zero_lt_ofRatio whole (by decide) ?_
  calc (2 : ℚ) ^ (-1021 : Int) ≤ 2 ^ (-20 : Int) := zpow_le_zpow_right₀ one_le_two (by decide)
    _ ≤ 1 / (1000000 : Nat) := by norm_num
    _ ≤ d.micros.natAbs / (1000000 : Nat) := by gcongr

end Duration

end SessionKeeper
