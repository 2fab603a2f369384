import SessionKeeper.Proofs.Number.Shortest
import SessionKeeper.Settings.Basic

/-!
# Durations of a number of seconds

The whole seconds of a number count exactly, and what is left of it is rounded to microseconds on
the way through two roundings of binary numbers, each of which is monotone. So a finite number that
is not negative is a duration just when it stays below the limit of 10^9 days, also where it comes
as close to that as a number can. And the duration is nothing at all when the number is half a
microsecond at most; the binary numbers next to that lie far enough from it for the roundings.
-/
namespace SessionKeeper

theorem roundQuotient_le_roundQuotient {m n c d : Nat} (hc : 0 < c) (hd : 0 < d)
    (h : m * d ≤ n * c) : roundQuotient m c ≤ roundQuotient n d := by
  rw [← roundQuotient_scale m c hd, ← roundQuotient_scale n d hc, Nat.mul_comm d]
  exact roundQuotient_mono h _

namespace Double

/-- That a number is finite and not marked as negative, with its value. -/
inductive IsWorth : Double → ℚ → Prop where
  | finite (significand : Nat) (exponent : Int) :
    IsWorth (.finite false significand exponent) (value false significand exponent)

variable {x y : Double} {v w : ℚ} {m n c d : Nat}

theorem IsWorth.le_of_atMost (hx : IsWorth x v) (hy : IsWorth y w) (h : x.AtMost y) : v ≤ w := by
  cases hx
  cases hy
  by_contra above
  have self := h _ ((lt_finite_iff ..).mpr (not_le.mp above))
  exact lt_irrefl _ ((lt_finite_iff ..).mp self)

/-- A quotient that is rounded to at most a finite number is rounded to a finite number. -/
theorem ofRatio_isWorth (h : (ofRatio false n d).AtMost y) (hy : IsWorth y w) :
    ∃ v, v ≤ w ∧ IsWorth (ofRatio false n d) v := by
  have finite : ∃ s e, ofRatio false n d = .finite false s e := by
    by_cases hn : n = 0
    · rw [ofRatio, if_pos hn]
      exact ⟨_, _, rfl⟩
    · rw [ofRatio_eq hn] at h ⊢
      rcases settle_cases (multiple n d (unit n d)) (unit n d) with ⟨-, same⟩ | ⟨-, s, e, same, -⟩
      · rw [same] at h
        cases hy
        cases h (.infinity false) rfl
      · exact ⟨s, e, same⟩
  obtain ⟨s, e, same⟩ := finite
  rw [same] at h ⊢
  exact ⟨_, (IsWorth.finite s e).le_of_atMost hy h, .finite s e⟩

/-- Rounding a quotient is monotone in its value. -/
theorem ofRatio_mono (hc : 0 < c) (hd : 0 < d) (h : (m : ℚ) / c ≤ n / d) :
    (ofRatio false m c).AtMost (ofRatio false n d) := by
  have hc' : (0 : ℚ) < c := by exact_mod_cast hc
  have hd' : (0 : ℚ) < d := by exact_mod_cast hd
  have left : (m : ℚ) / c = (m * d : Nat) / (c * d : Nat) := by
    push_cast
    rw [mul_div_mul_right _ _ hd'.ne']
  have right : (n : ℚ) / d = (n * c : Nat) / (c * d : Nat) := by
    push_cast
    rw [mul_comm (c : ℚ), mul_div_mul_right _ _ hc'.ne']
  have products : m * d ≤ n * c := by
    rw [div_le_div_iff₀ hc' hd'] at h
    exact_mod_cast h
  rw [ofRatio_congr false hc (Nat.mul_pos hc hd) left,
    ofRatio_congr false hd (Nat.mul_pos hc hd) right]
  exact ofRatio_atMost (Nat.mul_pos hc hd) products

theorem scale_mono (hx : IsWorth x v) (hy : IsWorth y w) (h : v ≤ w) (k : Nat) :
    (x.scale k).AtMost (y.scale k) := by
  cases hx with
  | finite s e =>
    cases hy with
    | finite t f =>
      obtain ⟨hc, hv⟩ := magnitude_spec s e
      obtain ⟨hd, hw⟩ := magnitude_spec t f
      have scaled : (((magnitude s e).1 * k : Nat) : ℚ) / (magnitude s e).2 ≤
          ((magnitude t f).1 * k : Nat) / (magnitude t f).2 := by
        push_cast
        rw [mul_div_right_comm, mul_div_right_comm, hv, hw]
        exact mul_le_mul_of_nonneg_right h (Nat.cast_nonneg k)
      exact ofRatio_mono hc hd scaled

end Double

namespace Duration

open Double (IsWorth)

variable {x y : Double} {v w : ℚ} {m n c d : Nat}

theorem nearestInt_mono (hx : IsWorth x v) (hy : IsWorth y w) (h : v ≤ w) :
    nearestInt x ≤ nearestInt y := by
  cases hx with
  | finite s e =>
    cases hy with
    | finite t f =>
      obtain ⟨hc, hv⟩ := Double.magnitude_spec s e
      obtain ⟨hd, hw⟩ := Double.magnitude_spec t f
      have products : (Double.magnitude s e).1 * (Double.magnitude t f).2 ≤
          (Double.magnitude t f).1 * (Double.magnitude s e).2 := by
        have quotients : ((Double.magnitude s e).1 : ℚ) / (Double.magnitude s e).2 ≤
            (Double.magnitude t f).1 / (Double.magnitude t f).2 := by
          rw [hv, hw]
          exact h
        rw [div_le_div_iff₀ (by exact_mod_cast hc) (by exact_mod_cast hd)] at quotients
        exact_mod_cast quotients
      exact Int.ofNat_le.mpr (roundQuotient_le_roundQuotient hc hd products)

/-- The microseconds that a part of a second is rounded to. -/
def partMicros (n d : Nat) : Int := nearestInt ((Double.ofRatio false n d).scale 1000000)

/-- A longer part of a second does not have fewer microseconds. -/
theorem partMicros_mono (hc : 0 < c) (hd : 0 < d) (h : (m : ℚ) / c ≤ n / d)
    (short : (n : ℚ) / d ≤ 1) : partMicros m c ≤ partMicros n d := by
  have one : IsWorth (Double.ofRatio false 1 1) (Double.value false (2 ^ 52) (-52)) := .finite _ _
  have unit : (n : ℚ) / d ≤ (1 : Nat) / (1 : Nat) := by simpa using short
  obtain ⟨w, hw, second⟩ := Double.ofRatio_isWorth (Double.ofRatio_mono hd Nat.one_pos unit) one
  obtain ⟨v, hv, first⟩ := Double.ofRatio_isWorth (Double.ofRatio_mono hc hd h) second
  have million : IsWorth ((Double.ofRatio false 1 1).scale 1000000)
    (Double.value false 8589934592000000 (-33)) := .finite _ _
  have scaled {x : Double} {u : ℚ} (hx : IsWorth x u) (hu : u ≤ Double.value false (2 ^ 52) (-52)) :
      ∃ t, IsWorth (x.scale 1000000) t := by
    have below := Double.scale_mono hx one hu 1000000
    cases hx
    obtain ⟨t, -, worth⟩ := Double.ofRatio_isWorth below million
    exact ⟨t, worth⟩
  obtain ⟨s, left⟩ := scaled first (hv.trans hw)
  obtain ⟨t, right⟩ := scaled second hw
  exact nearestInt_mono left right (left.le_of_atMost right (Double.scale_mono first second hv _))

theorem ofMicros_of_lt {k : Int} (least : 0 ≤ k) (below : k < 86400000000000000000) :
    ofMicros k = .ok ⟨k⟩ := by
  have days : k.fdiv dayMicros = k / 86400000000 := Int.fdiv_eq_ediv_of_nonneg _ (by decide)
  rw [ofMicros, days, if_pos (by omega)]

theorem ofMicros_of_le {k : Int} (large : 86400000000000000000 ≤ k) :
    ofMicros k = .error .tooLarge := by
  have days : k.fdiv dayMicros = k / 86400000000 := Int.fdiv_eq_ediv_of_nonneg _ (by decide)
  rw [ofMicros, days, if_neg (by omega)]

/-- The whole seconds count exactly, and the rest is rounded. -/
theorem ofSeconds_finite (significand : Nat) (exponent : Int) :
    ofSeconds (.finite false significand exponent) =
      ofMicros (((Double.magnitude significand exponent).1 /
          (Double.magnitude significand exponent).2 : Nat) * 1000000 +
        partMicros ((Double.magnitude significand exponent).1 %
          (Double.magnitude significand exponent).2)
          (Double.magnitude significand exponent).2) := rfl

theorem part_lt_one (n : Nat) (hd : 0 < d) : ((n % d : Nat) : ℚ) / d < 1 := by
  rw [div_lt_one (by exact_mod_cast hd)]
  exact_mod_cast Nat.mod_lt n hd

theorem partMicros_nonneg (n : Nat) (hd : 0 < d) : 0 ≤ partMicros (n % d) d := by
  have none : partMicros 0 1 = 0 := by decide +kernel
  rw [← none]
  refine partMicros_mono Nat.one_pos hd ?_ (part_lt_one n hd).le
  rw [Nat.cast_zero, zero_div]
  positivity

theorem partMicros_le (n : Nat) (hd : 0 < d) : partMicros (n % d) d ≤ 1000000 := by
  have second : partMicros 1 1 = 1000000 := by decide +kernel
  rw [← second]
  refine partMicros_mono hd Nat.one_pos ?_ (by norm_num)
  simpa using (part_lt_one n hd).le

/-- Close to the limit a number has six bits at most behind the point, so that what is left of it
is not rounded up to a second. -/
theorem partMicros_lt {significand : Nat} {exponent : Int} (bits : significand < 2 ^ 53)
    (large : 86399999999999 ≤
      (Double.magnitude significand exponent).1 / (Double.magnitude significand exponent).2) :
    partMicros ((Double.magnitude significand exponent).1 %
      (Double.magnitude significand exponent).2)
      (Double.magnitude significand exponent).2 < 1000000 := by
  obtain ⟨hd, -⟩ := Double.magnitude_spec significand exponent
  have most : partMicros 63 64 < 1000000 := by decide +kernel
  refine (partMicros_mono hd (by decide) ?_ (by norm_num)).trans_lt most
  have few : (Double.magnitude significand exponent).2 ≤ 64 := by
    rw [Double.magnitude] at large ⊢
    split_ifs at large ⊢
    · exact (by decide : 1 ≤ 64)
    · have fits : 86399999999999 * Nat.pow 2 (-exponent).toNat ≤ significand :=
        (Nat.le_div_iff_mul_le (Nat.pow_pos (by decide))).mp large
      by_contra many
      have seven : 6 < (-exponent).toNat :=
        (Nat.pow_lt_pow_iff_right (by decide)).mp (not_le.mp many)
      have : 2 ^ 7 ≤ Nat.pow 2 (-exponent).toNat := Nat.pow_le_pow_right (by decide) seven
      omega
  have rest := Nat.mod_lt (Double.magnitude significand exponent).1 hd
  rw [div_le_div_iff₀ (by exact_mod_cast hd) (by norm_num)]
  exact_mod_cast (by omega)

/-- No number lies between these two, which are next to half a microsecond. -/
theorem part_dichotomy {significand : Nat} {exponent : Int}
    (canonical : (Double.finite false significand exponent).IsCanonical) :
    (significand : ℚ) * 2 ^ exponent ≤ (4722366482869645 : Nat) / (2 ^ 73 : Nat) ∨
      ((4722366482869646 : Nat) : ℚ) / (2 ^ 73 : Nat) ≤ significand * 2 ^ exponent := by
  obtain ⟨bits, -, -, full⟩ := canonical
  have bits' : (significand : ℚ) ≤ 2 ^ 53 := by exact_mod_cast bits.le
  have unit : (2 : ℚ) ^ (-73 : Int) = 1 / (2 ^ 73 : Nat) := by norm_num
  rcases lt_trichotomy exponent (-73) with less | rfl | greater
  · left
    have power : (2 : ℚ) ^ exponent ≤ 2 ^ (-74 : Int) :=
      zpow_le_zpow_right₀ one_le_two (by omega)
    calc (significand : ℚ) * 2 ^ exponent ≤ 2 ^ 53 * 2 ^ (-74 : Int) := by gcongr
      _ ≤ (4722366482869645 : Nat) / (2 ^ 73 : Nat) := by norm_num
  · rw [unit, mul_one_div]
    rcases Nat.lt_or_ge 4722366482869645 significand with above | below
    · right
      gcongr
      exact above
    · left
      gcongr
  · right
    have power : (2 : ℚ) ^ (-72 : Int) ≤ 2 ^ exponent :=
      zpow_le_zpow_right₀ one_le_two (by omega)
    have full' : (2 : ℚ) ^ 52 ≤ significand := by
      exact_mod_cast full.resolve_right (by omega)
    calc ((4722366482869646 : Nat) : ℚ) / (2 ^ 73 : Nat) ≤ 2 ^ 52 * 2 ^ (-72 : Int) := by norm_num
      _ ≤ significand * 2 ^ exponent := by gcongr

/-- What is left of a number behind the point is a number of microseconds, and none just when it
is half of one at most. -/
theorem partMicros_pos_iff {significand : Nat} {exponent : Int} (hd : 0 < d)
    (canonical : (Double.finite false significand exponent).IsCanonical)
    (same : (n : ℚ) / d = significand * 2 ^ exponent) (short : (n : ℚ) / d ≤ 1) :
    0 < partMicros n d ↔ 1 / 2000000 < (n : ℚ) / d := by
  have none : partMicros 4722366482869645 (2 ^ 73) = 0 := by decide +kernel
  have one : partMicros 4722366482869646 (2 ^ 73) = 1 := by decide +kernel
  rcases part_dichotomy canonical with below | above
  · rw [← same] at below
    have few := partMicros_mono hd (by decide) below (by norm_num)
    rw [none] at few
    have half : (n : ℚ) / d ≤ 1 / 2000000 := below.trans (by norm_num)
    exact iff_of_false (by omega) (not_lt.mpr half)
  · rw [← same] at above
    have many := partMicros_mono (by decide) hd above short
    rw [one] at many
    refine iff_of_true (by omega) (lt_of_lt_of_le ?_ above)
    norm_num

/-- A number of seconds that is finite and not negative is a duration below the limit of 10^9 days
and none from there on; the duration is positive above half a microsecond. -/
theorem ofSeconds_spec (canonical : x.IsCanonical) (worth : IsWorth x v) :
    (v < 86400000000000 → ∃ length, ofSeconds x = .ok length ∧ 0 ≤ length.micros ∧
      (0 < length.micros ↔ 1 / 2000000 < v)) ∧
    (86400000000000 ≤ v → ofSeconds x = .error .tooLarge) := by
  cases worth with
  | finite significand exponent =>
  obtain ⟨hd, quotient⟩ := Double.magnitude_spec significand exponent
  have whole := ofSeconds_finite significand exponent
  have lastBits := @partMicros_lt _ exponent canonical.1
  generalize (Double.magnitude significand exponent).1 = n at *
  generalize (Double.magnitude significand exponent).2 = d at *
  have same : Double.value false significand exponent = (n : ℚ) / d := quotient.symm
  have least := partMicros_nonneg n hd
  have most := partMicros_le n hd
  have natural : (0 : Int) ≤ (n / d : Nat) := Int.natCast_nonneg _
  have hd' : (0 : ℚ) < d := by exact_mod_cast hd
  rw [same, whole]
  constructor
  · intro small
    have days : n / d < 86400000000000 := by
      rw [div_lt_iff₀ hd'] at small
      exact (Nat.div_lt_iff_lt_mul hd).mpr (by exact_mod_cast small)
    refine ⟨_, ofMicros_of_lt (by omega) (by omega), by dsimp only; omega, ?_⟩
    dsimp only
    rcases Nat.eq_zero_or_pos (n / d) with none | some
    · have less : n < d := (Nat.div_eq_zero_iff_lt hd).mp none
      have part := partMicros_pos_iff hd canonical quotient
        ((div_le_one hd').mpr (by exact_mod_cast less.le))
      rw [none, Nat.mod_eq_of_lt less, ← part]
      omega
    · have second : (1 : ℚ) ≤ n / d := by
        rw [one_le_div hd']
        exact_mod_cast (Nat.one_le_div_iff hd).mp some
      exact iff_of_true (by omega) (lt_of_lt_of_le (by norm_num) second)
  · intro large
    have days : 86400000000000 ≤ n / d := by
      rw [le_div_iff₀ hd'] at large
      exact (Nat.le_div_iff_mul_le hd).mpr (by exact_mod_cast large)
    exact ofMicros_of_le (by omega)

end Duration

end SessionKeeper
