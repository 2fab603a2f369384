import SessionKeeper.Number.Shortest
import SessionKeeper.Proofs.Number.Nearest

/-!
# Shortest digits are read back

The digits that are printed for a canonical number are those of a decimal that is read as the
number: seventeen digits differ from the number by less than one part in 2^54, so the search
for fewer digits ends there at the latest. What a decimal is read as depends on its value only,
so its trailing zeros can be dropped and its point can be placed anywhere.
-/
namespace SessionKeeper

namespace Double

theorem ten_zpow_ofNat (k : Int) (h : 0 ≤ k) : (10 : ℚ) ^ k = ((Nat.pow 10 k.toNat : Nat) : ℚ) := by
  obtain ⟨n, rfl⟩ := Int.eq_ofNat_of_zero_le h
  simp

theorem ten_zpow_neg (k : Int) (h : k < 0) :
    (10 : ℚ) ^ k = ((Nat.pow 10 (-k).toNat : Nat) : ℚ)⁻¹ := by
  rw [← ten_zpow_ofNat (-k) (by omega), zpow_neg, inv_inv]

theorem reachesTen_iff {n d : Nat} (hd : 0 < d) (k : Int) :
    (if 0 ≤ k then decide (d * Nat.pow 10 k.toNat ≤ n) else decide (d ≤ n * Nat.pow 10 (-k).toNat)) =
      true ↔ (10 : ℚ) ^ k ≤ n / d := by
  have hd' : (0 : ℚ) < d := by exact_mod_cast hd
  rw [le_div_iff₀ hd']
  split_ifs with hk
  · rw [ten_zpow_ofNat k hk, mul_comm, decide_eq_true_iff]
    exact_mod_cast Iff.rfl
  · have hp : (0 : ℚ) < ((Nat.pow 10 (-k).toNat : Nat) : ℚ) := by
      exact_mod_cast Nat.pow_pos (by decide)
    rw [ten_zpow_neg k (by omega), inv_mul_le_iff₀ hp, mul_comm, decide_eq_true_iff]
    exact_mod_cast Iff.rfl

def decimalRatio (digits : Nat) (exponent : Int) : Nat × Nat :=
  if 0 ≤ exponent then (digits * Nat.pow 10 exponent.toNat, 1)
  else (digits, Nat.pow 10 (-exponent).toNat)

theorem decimalRatio_snd_pos (digits : Nat) (exponent : Int) :
    0 < (decimalRatio digits exponent).2 := by
  rw [decimalRatio]
  split_ifs
  · exact Nat.one_pos
  · exact Nat.pow_pos (by decide)

theorem decimalRatio_value (digits : Nat) (exponent : Int) :
    ((decimalRatio digits exponent).1 : ℚ) / (decimalRatio digits exponent).2 =
      digits * 10 ^ exponent := by
  rw [decimalRatio]
  split_ifs with he
  · rw [ten_zpow_ofNat exponent he]
    push_cast
    ring
  · rw [ten_zpow_neg exponent (by omega)]
    rfl

/-- The place of the decimal point in front of which a decimal has no digits. -/
def decimalOrder (digits : Nat) (exponent : Int) : Int := exponent + (toString digits).length

theorem ofDecimal_eq {digits : Nat} (h : digits ≠ 0) (negative : Bool) (exponent : Int) :
    ofDecimal negative digits exponent =
      if 400 < decimalOrder digits exponent then .infinity negative
      else if decimalOrder digits exponent < -400 then zero negative
      else ofRatio negative (decimalRatio digits exponent).1 (decimalRatio digits exponent).2 := by
  rw [ofDecimal, if_neg h, decimalRatio, decimalOrder]
  dsimp only
  split_ifs <;> rfl

/-- A decimal lies below the power of ten of its order and reaches the one before. -/
theorem decimalOrder_spec {digits : Nat} (h : digits ≠ 0) (exponent : Int) :
    (10 : ℚ) ^ (decimalOrder digits exponent - 1) ≤ digits * 10 ^ exponent ∧
      (digits : ℚ) * 10 ^ exponent < 10 ^ decimalOrder digits exponent := by
  have length : (toString digits).length = (Nat.toDigits 10 digits).length := by
    rw [← String.length_toList]
    exact congrArg List.length Nat.toList_repr
  have pos : 0 < (Nat.toDigits 10 digits).length := List.length_pos_iff.mpr Nat.toDigits_ne_nil
  have high : digits < 10 ^ (Nat.toDigits 10 digits).length :=
    (Nat.length_toDigits_le_iff (by decide) pos).mp le_rfl
  have low : 10 ^ ((Nat.toDigits 10 digits).length - 1) ≤ digits := by
    rcases Nat.eq_zero_or_pos ((Nat.toDigits 10 digits).length - 1) with h0 | hp
    · rw [h0]
      exact Nat.pos_of_ne_zero h
    · by_contra hlt
      have := (Nat.length_toDigits_le_iff (by decide) hp).mpr (not_le.mp hlt)
      omega
  rw [decimalOrder, length]
  generalize (Nat.toDigits 10 digits).length = k at pos high low
  obtain ⟨j, rfl⟩ : ∃ j, k = j + 1 := ⟨k - 1, by omega⟩
  have hp : (0 : ℚ) < 10 ^ exponent := by positivity
  have split (i : Nat) : (10 : ℚ) ^ (exponent + i) = ((10 ^ i : Nat) : ℚ) * 10 ^ exponent := by
    rw [zpow_add₀ (by norm_num), zpow_natCast]
    push_cast
    ring
  rw [Nat.add_sub_cancel] at low
  constructor
  · rw [show exponent + ((j + 1 : Nat) : Int) - 1 = exponent + (j : Nat) by push_cast; ring, split]
    gcongr
  · rw [split]
    gcongr

/-- What a decimal is read as depends on its value only. -/
theorem ofDecimal_congr (negative : Bool) {a b : Nat} {e f : Int}
    (h : (a : ℚ) * 10 ^ e = b * 10 ^ f) : ofDecimal negative a e = ofDecimal negative b f := by
  have he : (10 : ℚ) ^ e ≠ 0 := by positivity
  have hf : (10 : ℚ) ^ f ≠ 0 := by positivity
  by_cases ha : a = 0
  · have hb : b = 0 := by
      rw [ha, Nat.cast_zero, zero_mul, eq_comm, mul_eq_zero, or_iff_left hf] at h
      exact_mod_cast h
    rw [ha, hb, ofDecimal, ofDecimal, if_pos rfl, if_pos rfl]
  · have hb : b ≠ 0 := by
      rintro rfl
      rw [Nat.cast_zero, zero_mul, mul_eq_zero, or_iff_left he] at h
      exact ha (by exact_mod_cast h)
    have specA := decimalOrder_spec ha e
    have specB := decimalOrder_spec hb f
    rw [← h] at specB
    have ten : (1 : ℚ) < 10 := by norm_num
    have orders : decimalOrder a e = decimalOrder b f := by
      have := (zpow_lt_zpow_iff_right₀ ten).mp (specA.1.trans_lt specB.2)
      have := (zpow_lt_zpow_iff_right₀ ten).mp (specB.1.trans_lt specA.2)
      omega
    have ratios : ofRatio negative (decimalRatio a e).1 (decimalRatio a e).2 =
        ofRatio negative (decimalRatio b f).1 (decimalRatio b f).2 := by
      refine ofRatio_congr negative (decimalRatio_snd_pos a e) (decimalRatio_snd_pos b f) ?_
      rw [decimalRatio_value, decimalRatio_value, h]
    rw [ofDecimal_eq ha, ofDecimal_eq hb, orders, ratios]

theorem isCanonical_ofDecimal (negative : Bool) (digits : Nat) (exponent : Int) :
    (ofDecimal negative digits exponent).IsCanonical := by
  by_cases h : digits = 0
  · rw [ofDecimal, if_pos h]
    exact isCanonical_zero negative
  · rw [ofDecimal_eq h]
    split_ifs
    · trivial
    · exact isCanonical_zero negative
    · exact isCanonical_ofRatio negative _ (decimalRatio_snd_pos digits exponent)

def withSign (negative : Bool) : Double → Double
  | .finite _ significand exponent => .finite negative significand exponent
  | .infinity _ => .infinity negative
  | .nan => .nan

theorem ofRatio_withSign (negative : Bool) (n d : Nat) :
    ofRatio negative n d = (ofRatio false n d).withSign negative := by
  by_cases hn : n = 0
  · rw [ofRatio, ofRatio, if_pos hn, if_pos hn]
    rfl
  · rw [ofRatio_eq hn, ofRatio_eq hn, settle, settle]
    dsimp only
    split_ifs <;> rfl

/-- The sign in front of a decimal is that of the number. -/
theorem ofDecimal_withSign (negative : Bool) (digits : Nat) (exponent : Int) :
    ofDecimal negative digits exponent = (ofDecimal false digits exponent).withSign negative := by
  by_cases h : digits = 0
  · rw [ofDecimal, ofDecimal, if_pos h, if_pos h]
    rfl
  · rw [ofDecimal_eq h, ofDecimal_eq h]
    split_ifs
    · rfl
    · rfl
    · exact ofRatio_withSign negative _ _

/-- The magnitude of a canonical number lies between the least and the greatest one. -/
theorem IsCanonical.bounds {negative : Bool} {significand : Nat} {exponent : Int}
    (h : (Double.finite negative significand exponent).IsCanonical) (hs : 0 < significand) :
    (2 : ℚ) ^ (-1074 : Int) ≤ significand * 2 ^ exponent ∧
      (significand : ℚ) * 2 ^ exponent < 2 ^ (1024 : Int) := by
  obtain ⟨bits, least, greatest, -⟩ := h
  have one : (1 : ℚ) ≤ significand := by exact_mod_cast hs
  have bits' : (significand : ℚ) < 2 ^ 53 := by exact_mod_cast bits
  have hp : (0 : ℚ) < 2 ^ exponent := by positivity
  constructor
  · calc (2 : ℚ) ^ (-1074 : Int) ≤ 2 ^ exponent := zpow_le_zpow_right₀ one_le_two least
      _ = 1 * 2 ^ exponent := (one_mul _).symm
      _ ≤ significand * 2 ^ exponent := by gcongr
  · calc (significand : ℚ) * 2 ^ exponent < 2 ^ 53 * 2 ^ exponent := by gcongr
      _ ≤ 2 ^ 53 * 2 ^ (971 : Int) := by
        gcongr
        exact one_le_two
      _ = 2 ^ (1024 : Int) := by
        rw [← zpow_natCast, ← zpow_add₀ two_ne_zero]
        norm_num

theorem two_pow_lt_ten_pow : (2 : ℚ) ^ 1075 < 10 ^ 399 :=
  calc (2 : ℚ) ^ 1075 ≤ 2 ^ (3 * 399) := pow_le_pow_right₀ one_le_two (by norm_num)
    _ = 8 ^ 399 := by rw [pow_mul, show (2 : ℚ) ^ 3 = 8 by norm_num]
    _ < 10 ^ 399 := by
      gcongr
      norm_num

/-- A decimal whose value is within the range of the numbers is rounded. -/
theorem ofDecimal_of_bounds {digits : Nat} (hd : digits ≠ 0) {exponent : Int}
    (low : (2 : ℚ) ^ (-1075 : Int) ≤ digits * 10 ^ exponent)
    (high : (digits : ℚ) * 10 ^ exponent < 2 ^ (1075 : Int)) (negative : Bool) :
    ofDecimal negative digits exponent =
      ofRatio negative (decimalRatio digits exponent).1 (decimalRatio digits exponent).2 := by
  have spec := decimalOrder_spec hd exponent
  have ten : (1 : ℚ) < 10 := by norm_num
  have great : (2 : ℚ) ^ (1075 : Int) < 10 ^ (399 : Int) := by exact_mod_cast two_pow_lt_ten_pow
  have small : (10 : ℚ) ^ (-399 : Int) < 2 ^ (-1075 : Int) := by
    rw [zpow_neg, zpow_neg]
    exact inv_strictAnti₀ (by positivity) great
  have upper := (zpow_lt_zpow_iff_right₀ ten).mp (spec.1.trans_lt (high.trans great))
  have lower := (zpow_lt_zpow_iff_right₀ ten).mp (small.trans_le (low.trans spec.2.le))
  rw [ofDecimal_eq hd, if_neg (by omega), if_neg (by omega)]

/-- A decimal that differs from a canonical number by less than one part in 2^54 is read as
that number. -/
theorem ofDecimal_of_near {digits significand : Nat} {exponent unit : Int} (hs : 0 < significand)
    (canonical : (Double.finite false significand exponent).IsCanonical)
    (near : |(digits : ℚ) * 10 ^ unit - significand * 2 ^ exponent| <
      significand * 2 ^ exponent / 2 ^ 54) :
    ofDecimal false digits unit = .finite false significand exponent := by
  obtain ⟨least, greatest⟩ := canonical.bounds hs
  obtain ⟨above, below⟩ := abs_lt.mp near
  have half : (2 : ℚ) ^ (-1075 : Int) = 2 ^ (-1074 : Int) / 2 := by
    rw [show (-1075 : Int) = -1074 - 1 from rfl, zpow_sub_one₀ two_ne_zero, div_eq_mul_inv]
  have twice : (2 : ℚ) ^ (1024 : Int) * 2 ≤ 2 ^ (1075 : Int) := by
    rw [← zpow_add_one₀ two_ne_zero]
    exact zpow_le_zpow_right₀ one_le_two (by decide)
  have bounds : (2 : ℚ) ^ (-1075 : Int) ≤ digits * 10 ^ unit ∧
      (digits : ℚ) * 10 ^ unit < 2 ^ (1075 : Int) := by
    have positive : (0 : ℚ) < 2 ^ (-1074 : Int) := by positivity
    rw [half]
    generalize (2 : ℚ) ^ (-1074 : Int) = low at *
    generalize (2 : ℚ) ^ (1024 : Int) = high at *
    generalize (2 : ℚ) ^ (1075 : Int) = top at *
    generalize (significand : ℚ) * 2 ^ exponent = v at *
    generalize (digits : ℚ) * 10 ^ unit = w at *
    norm_num at above below
    constructor <;> linarith
  have positive : (0 : ℚ) < digits * 10 ^ unit := lt_of_lt_of_le (by positivity) bounds.1
  have hd : digits ≠ 0 := by
    rintro rfl
    rw [Nat.cast_zero, zero_mul] at positive
    exact lt_irrefl _ positive
  have value := decimalRatio_value digits unit
  have ratio_pos : 0 < (decimalRatio digits unit).1 := by
    refine Nat.pos_of_ne_zero fun h0 => ?_
    rw [h0, Nat.cast_zero, zero_div] at value
    exact positive.ne value
  rw [ofDecimal_of_bounds hd bounds.1 bounds.2]
  refine ofRatio_of_near false ratio_pos (decimalRatio_snd_pos digits unit) canonical ?_
  rw [value]
  exact near

/-- The logarithm of two is close enough to 0.30103 for every order of a number. -/
def logTableHolds (k : Nat) : Bool :=
  let up := k * 30103 / 100000
  let down := (k * 30103 + 99999) / 100000
  decide (10 ^ up ≤ 2 ^ k) && decide (2 ^ (k + 1) ≤ 10 ^ (up + 2)) &&
    decide (2 ^ k ≤ 10 ^ down) && decide (10 ^ down * 2 ≤ 100 * 2 ^ k)

theorem logTable : (List.range 1100).all logTableHolds = true := by decide +kernel

theorem logTable_spec {k : Nat} (hk : k < 1100) :
    10 ^ (k * 30103 / 100000) ≤ 2 ^ k ∧ 2 ^ (k + 1) ≤ 10 ^ (k * 30103 / 100000 + 2) ∧
      2 ^ k ≤ 10 ^ ((k * 30103 + 99999) / 100000) ∧
      10 ^ ((k * 30103 + 99999) / 100000) * 2 ≤ 100 * 2 ^ k := by
  have holds := List.all_eq_true.mp logTable k (List.mem_range.mpr hk)
  simp only [logTableHolds, Bool.and_eq_true, decide_eq_true_eq] at holds
  exact ⟨holds.1.1.1, holds.1.1.2, holds.1.2, holds.2⟩

/-- The powers of ten around a power of two. -/
theorem guess_spec {order : Int} (low : -1074 ≤ order) (high : order < 1024) :
    (10 : ℚ) ^ (order * 30103 / 100000) ≤ 2 ^ order ∧
      (2 : ℚ) ^ (order + 1) ≤ 10 ^ (order * 30103 / 100000 + 2) := by
  rcases Int.le_total 0 order with h | h
  · obtain ⟨k, rfl⟩ := Int.eq_ofNat_of_zero_le h
    obtain ⟨reached, beyond, -, -⟩ := logTable_spec (k := k) (by omega)
    have guess : (k : Int) * 30103 / 100000 = ((k * 30103 / 100000 : Nat) : Int) := by omega
    rw [guess]
    exact ⟨by exact_mod_cast reached, by exact_mod_cast beyond⟩
  · obtain ⟨k, hk⟩ := Int.eq_ofNat_of_zero_le (a := -order) (by omega)
    obtain rfl : order = -(k : Int) := by omega
    obtain ⟨-, -, reached, beyond⟩ := logTable_spec (k := k) (by omega)
    have guess : -(k : Int) * 30103 / 100000 = -(((k * 30103 + 99999) / 100000 : Nat) : Int) := by
      omega
    have reached' : (2 : ℚ) ^ k ≤ 10 ^ ((k * 30103 + 99999) / 100000) := by exact_mod_cast reached
    have beyond' : (10 : ℚ) ^ ((k * 30103 + 99999) / 100000) * 2 ≤ 100 * 2 ^ k := by
      exact_mod_cast beyond
    rw [guess]
    have two : (0 : ℚ) < 2 ^ k := by positivity
    have ten : (0 : ℚ) < 10 ^ ((k * 30103 + 99999) / 100000) := by positivity
    constructor
    · rw [zpow_neg, zpow_neg, zpow_natCast, zpow_natCast]
      exact inv_anti₀ two reached'
    · rw [zpow_add₀ two_ne_zero, zpow_add₀ (by norm_num), zpow_neg, zpow_neg, zpow_natCast,
        zpow_natCast, zpow_one, inv_mul_le_iff₀ two, mul_left_comm, inv_mul_eq_div, le_div_iff₀ ten,
        mul_comm]
      refine beyond'.trans (le_of_eq ?_)
      norm_num
      ring

/-- The decimal point of a quotient is that of the power of ten above it. -/
theorem decimalPoint_spec {n d : Nat} (hn : 0 < n) (hd : 0 < d)
    (low : (2 : ℚ) ^ (-1074 : Int) ≤ n / d) (high : (n : ℚ) / d < 2 ^ (1024 : Int)) :
    (10 : ℚ) ^ (decimalPoint n d - 1) ≤ n / d ∧ (n : ℚ) / d < 10 ^ decimalPoint n d := by
  have spec := binaryOrder_spec hn hd
  have order_low : -1074 < binaryOrder n d + 1 :=
    (zpow_lt_zpow_iff_right₀ one_lt_two).mp (low.trans_lt spec.2)
  have order_high : binaryOrder n d < 1024 :=
    (zpow_lt_zpow_iff_right₀ one_lt_two).mp (spec.1.trans_lt high)
  obtain ⟨reached, beyond⟩ := guess_spec (show -1074 ≤ binaryOrder n d by omega) order_high
  have here := (reachesTen_iff (n := n) hd (binaryOrder n d * 30103 / 100000)).mpr
    (reached.trans spec.1)
  have next := reachesTen_iff (n := n) hd (binaryOrder n d * 30103 / 100000 + 1)
  have point : decimalPoint n d =
      if (10 : ℚ) ^ (binaryOrder n d * 30103 / 100000 + 1) ≤ n / d then
        binaryOrder n d * 30103 / 100000 + 2
      else binaryOrder n d * 30103 / 100000 + 1 := by
    rw [decimalPoint]
    simp only [here, next, if_true]
  rw [point]
  split_ifs with h
  · refine ⟨?_, spec.2.trans_le beyond⟩
    rwa [show ∀ g : Int, g + 2 - 1 = g + 1 from fun g => by ring]
  · rw [add_sub_cancel_right]
    exact ⟨reached.trans spec.1, not_le.mp h⟩

theorem inUnits_spec {n d : Nat} (hd : 0 < d) (unit : Int) : 0 < (inUnits n d unit).2 ∧
    ((inUnits n d unit).1 : ℚ) / (inUnits n d unit).2 * 10 ^ unit = n / d := by
  have hd' : (d : ℚ) ≠ 0 := by exact_mod_cast hd.ne'
  have hp (k : Nat) : ((Nat.pow 10 k : Nat) : ℚ) ≠ 0 := by
    exact_mod_cast (Nat.pow_pos (by decide)).ne'
  rw [inUnits]
  split_ifs with h
  · refine ⟨Nat.mul_pos hd (Nat.pow_pos (by decide)), ?_⟩
    have := hp unit.toNat
    rw [ten_zpow_ofNat unit h]
    push_cast at this ⊢
    field_simp
  · refine ⟨hd, ?_⟩
    have := hp (-unit).toNat
    rw [ten_zpow_neg unit (by omega)]
    push_cast at this ⊢
    field_simp

/-- A candidate of the search satisfies its test. -/
theorem nearestWith_accepts {accepts : Nat → Int → Bool} {n d count : Nat} {point : Int}
    {found : Decimal} (h : nearestWith accepts n d point count = some found) :
    accepts found.digits found.point = true := by
  rw [nearestWith] at h
  dsimp only at h
  split_ifs at h with first second second <;> obtain rfl := Option.some.inj h <;> assumption

theorem nearestWith_isSome {accepts : Nat → Int → Bool} {n d count : Nat} {point : Int}
    (h : accepts (roundQuotient (inUnits n d (point - count)).1 (inUnits n d (point - count)).2)
      (point - count) = true) : (nearestWith accepts n d point count).isSome = true := by
  rw [nearestWith]
  dsimp only
  rw [if_pos h]
  rfl

theorem magnitude_spec (significand : Nat) (exponent : Int) :
    0 < (magnitude significand exponent).2 ∧
      ((magnitude significand exponent).1 : ℚ) / (magnitude significand exponent).2 =
        significand * 2 ^ exponent := by
  rw [magnitude]
  split_ifs with h
  · refine ⟨Nat.one_pos, ?_⟩
    rw [two_zpow_ofNat exponent h]
    push_cast
    ring
  · refine ⟨Nat.pow_pos (by decide), ?_⟩
    rw [two_zpow_neg exponent (by omega)]
    rfl

/-- What a quotient is rounded to is at most half a unit away. -/
theorem roundQuotient_close (n : Nat) {d : Nat} (hd : 0 < d) :
    |(roundQuotient n d : ℚ) - n / d| ≤ 1 / 2 := by
  obtain ⟨above, below⟩ := roundQuotient_near n d hd
  have hd' : (0 : ℚ) < d := by exact_mod_cast hd
  have above' : (2 * n : ℚ) ≤ 2 * (roundQuotient n d * d) + d := by exact_mod_cast above
  have below' : (2 * (roundQuotient n d * d) : ℚ) ≤ 2 * n + d := by exact_mod_cast below
  have exact : (n : ℚ) = n / d * d := (div_mul_cancel₀ _ hd'.ne').symm
  generalize (n : ℚ) / d = x at exact ⊢
  rw [exact] at above' below'
  have scaled : |(roundQuotient n d : ℚ) - x| * d ≤ 1 / 2 * d := by
    rw [← abs_of_pos hd', ← abs_mul, abs_of_pos hd', abs_le]
    constructor <;> linarith
  exact le_of_mul_le_mul_right scaled hd'

theorem seventeen_readBack {significand : Nat} {exponent : Int} (hs : 0 < significand)
    (canonical : (Double.finite false significand exponent).IsCanonical) {n d : Nat}
    (hd : 0 < d) (value : (n : ℚ) / d = significand * 2 ^ exponent) :
    ofDecimal false (roundQuotient (inUnits n d (decimalPoint n d - 17)).1
      (inUnits n d (decimalPoint n d - 17)).2) (decimalPoint n d - 17) =
        .finite false significand exponent := by
  obtain ⟨least, greatest⟩ := canonical.bounds hs
  have positive : (0 : ℚ) < significand * 2 ^ exponent := by positivity
  have hn : 0 < n := by
    refine Nat.pos_of_ne_zero fun h0 => ?_
    rw [h0, Nat.cast_zero, zero_div] at value
    exact positive.ne value
  rw [← value] at least greatest
  have point := (decimalPoint_spec hn hd least greatest).1
  obtain ⟨hu, units⟩ := inUnits_spec (n := n) hd (decimalPoint n d - 17)
  have fine : (10 : ℚ) ^ (decimalPoint n d - 17) * 10 ^ 16 ≤ n / d := by
    rw [← zpow_natCast, ← zpow_add₀ (by norm_num)]
    convert point using 2
    push_cast
    ring
  refine ofDecimal_of_near hs canonical ?_
  rw [← value, ← units]
  have close := roundQuotient_close (inUnits n d (decimalPoint n d - 17)).1 hu
  rw [← units] at fine
  have hp : (0 : ℚ) < 10 ^ (decimalPoint n d - 17) := by positivity
  generalize ((inUnits n d (decimalPoint n d - 17)).1 : ℚ) / (inUnits n d (decimalPoint n d - 17)).2 =
    x at close fine ⊢
  generalize (10 : ℚ) ^ (decimalPoint n d - 17) = p at hp fine ⊢
  calc |(roundQuotient _ _ : ℚ) * p - x * p| = |(roundQuotient _ _ : ℚ) - x| * p := by
        rw [← sub_mul, abs_mul, abs_of_pos hp]
    _ ≤ 1 / 2 * p := by gcongr
    _ < x * p / 2 ^ 54 := by
        norm_num at fine ⊢
        linarith

theorem shortest_readsBack {significand : Nat} {exponent : Int} (hs : 0 < significand)
    (canonical : (Double.finite false significand exponent).IsCanonical) :
    ofDecimal false (shortest significand exponent).digits (shortest significand exponent).point =
      .finite false significand exponent := by
  obtain ⟨hd, value⟩ := magnitude_spec significand exponent
  have last := seventeen_readBack hs canonical hd value
  rw [shortest]
  dsimp only
  generalize (magnitude significand exponent).1 = n at last
  generalize (magnitude significand exponent).2 = d at last
  generalize hp : decimalPoint n d = point at last
  generalize ha : (fun digits unit => decide (ofDecimal false digits unit =
    .finite false significand exponent) : Nat → Int → Bool) = accepts
  have accepts_iff (digits : Nat) (unit : Int) : accepts digits unit = true ↔
      ofDecimal false digits unit = .finite false significand exponent := by
    rw [← ha, decide_eq_true_iff]
  cases hf : (List.range 17).findSome? fun i => nearestWith accepts n d point (i + 1) with
  | none =>
    rw [List.findSome?_eq_none_iff] at hf
    have h := hf 16 (by decide)
    have some : (nearestWith accepts n d point 17).isSome = true :=
      nearestWith_isSome ((accepts_iff _ _).mpr last)
    rw [h] at some
    nomatch some
  | some found =>
    obtain ⟨i, -, hi⟩ := List.exists_of_findSome?_eq_some hf
    exact (accepts_iff _ _).mp (nearestWith_accepts hi)

end Double

end SessionKeeper
