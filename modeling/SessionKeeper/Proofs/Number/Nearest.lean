import SessionKeeper.Proofs.Number.Order

/-!
# The nearest number

What a quotient is rounded to depends on its value alone, and it is a canonical number: the
significand is below 2^53 and has all 53 bits unless the exponent is the least one. A quotient
that differs from a canonical number by less than one part in 2^54 is rounded to that number,
also where the number is a power of two and the numbers below it lie closer together.
-/
namespace SessionKeeper

/-- A quotient that lies less than half a unit from a natural number is rounded to it. -/
theorem roundQuotient_of_near {n d k : Nat} (hd : 0 < d) (above : 2 * n < 2 * (k * d) + d)
    (below : 2 * (k * d) < 2 * n + d) : roundQuotient n d = k := by
  have near := roundQuotient_near n d hd
  have upper : k * d < (roundQuotient n d + 1) * d := by
    rw [Nat.add_mul, Nat.one_mul]
    omega
  have lower : roundQuotient n d * d < (k + 1) * d := by
    rw [Nat.add_mul, Nat.one_mul]
    omega
  have := Nat.lt_of_mul_lt_mul_right upper
  have := Nat.lt_of_mul_lt_mul_right lower
  omega

theorem roundQuotient_scale (n d : Nat) {k : Nat} (hk : 0 < k) :
    roundQuotient (n * k) (d * k) = roundQuotient n d := by
  have small : (2 * (n % d * k) < d * k) = (2 * (n % d) < d) := by
    rw [← Nat.mul_assoc, Nat.mul_lt_mul_right hk]
  have great : (d * k < 2 * (n % d * k)) = (d < 2 * (n % d)) := by
    rw [← Nat.mul_assoc, Nat.mul_lt_mul_right hk]
  simp only [roundQuotient, Nat.mul_div_mul_right _ _ hk, Nat.mul_mod_mul_right, small, great]

theorem roundQuotient_congr {m n c d : Nat} (hc : 0 < c) (hd : 0 < d) (h : m * d = n * c) :
    roundQuotient m c = roundQuotient n d := by
  rw [← roundQuotient_scale m c hd, ← roundQuotient_scale n d hc, h, Nat.mul_comm d]

namespace Double

/-- That a finite number is written in the one way that rounding writes it. -/
def IsCanonical : Double → Prop
  | .finite _ significand exponent => significand < 2 ^ 53 ∧ -1074 ≤ exponent ∧ exponent ≤ 971 ∧
      (2 ^ 52 ≤ significand ∨ exponent = -1074)
  | _ => True

instance : DecidablePred IsCanonical
  | .finite .. => inferInstanceAs (Decidable (_ ∧ _))
  | .infinity _ => inferInstanceAs (Decidable True)
  | .nan => inferInstanceAs (Decidable True)

theorem isCanonical_zero (negative : Bool) : (zero negative).IsCanonical := by
  cases negative <;> decide

theorem isCanonical_settle (negative : Bool) {significand : Nat} {exponent : Int}
    (bits : significand ≤ Nat.pow 2 53) (least : -1074 ≤ exponent)
    (full : -1074 < exponent → Nat.pow 2 52 ≤ significand) :
    (settle negative significand exponent).IsCanonical := by
  rw [settle]
  by_cases hs : significand = Nat.pow 2 53
  · rw [if_pos hs]
    dsimp only
    split_ifs with hl
    · trivial
    · exact ⟨by decide, by omega, by omega, Or.inl (by decide)⟩
  · rw [if_neg hs]
    dsimp only
    split_ifs with hl
    · trivial
    · refine ⟨Nat.lt_of_le_of_ne bits hs, least, by omega, ?_⟩
      rcases eq_or_lt_of_le least with heq | hlt
      · exact Or.inr heq.symm
      · exact Or.inl (full hlt)

/-- Rounding gives a canonical number. -/
theorem isCanonical_ofRatio (negative : Bool) (n : Nat) {d : Nat} (hd : 0 < d) :
    (ofRatio negative n d).IsCanonical := by
  rcases Nat.eq_zero_or_pos n with rfl | hn
  · exact isCanonical_zero negative
  · rw [ofRatio_eq hn.ne']
    exact isCanonical_settle negative (multiple_unit_le hn hd) (le_max_right _ _)
      (le_multiple_unit hn hd)

/-- The order of a quotient is the power of two that it reaches but does not exceed. -/
theorem binaryOrder_eq {n d : Nat} (hn : 0 < n) (hd : 0 < d) {k : Int} (low : (2 : ℚ) ^ k ≤ n / d)
    (high : (n : ℚ) / d < 2 ^ (k + 1)) : binaryOrder n d = k := by
  have spec := binaryOrder_spec hn hd
  have := (zpow_lt_zpow_iff_right₀ (one_lt_two (α := ℚ))).mp (low.trans_lt spec.2)
  have := (zpow_lt_zpow_iff_right₀ (one_lt_two (α := ℚ))).mp (spec.1.trans_lt high)
  omega

theorem multiple_congr {m n c d : Nat} (hc : 0 < c) (hd : 0 < d) (h : m * d = n * c)
    (exponent : Int) : multiple m c exponent = multiple n d exponent := by
  rw [multiple, multiple]
  split_ifs
  · refine roundQuotient_congr (Nat.mul_pos hc (Nat.pow_pos (by decide)))
      (Nat.mul_pos hd (Nat.pow_pos (by decide))) ?_
    rw [← Nat.mul_assoc, ← Nat.mul_assoc, h]
  · refine roundQuotient_congr hc hd ?_
    rw [Nat.mul_right_comm, h, Nat.mul_right_comm]

/-- What a quotient is rounded to depends on its value only. -/
theorem ofRatio_congr (negative : Bool) {m n c d : Nat} (hc : 0 < c) (hd : 0 < d)
    (h : (m : ℚ) / c = n / d) : ofRatio negative m c = ofRatio negative n d := by
  have hc' : (c : ℚ) ≠ 0 := by exact_mod_cast hc.ne'
  have hd' : (d : ℚ) ≠ 0 := by exact_mod_cast hd.ne'
  have products : m * d = n * c := by
    rw [div_eq_div_iff hc' hd'] at h
    exact_mod_cast h
  rcases Nat.eq_zero_or_pos m with rfl | hm
  · have hn : n = 0 := by
      rw [Nat.zero_mul] at products
      exact (Nat.mul_eq_zero.mp products.symm).resolve_right hc.ne'
    rw [hn, ofRatio, ofRatio, if_pos rfl, if_pos rfl]
  · have hn : 0 < n := by
      refine Nat.pos_of_ne_zero fun h0 => ?_
      rw [h0, Nat.zero_mul] at products
      exact (Nat.mul_pos hm hd).ne' products
    have spec := binaryOrder_spec hn hd
    rw [← h] at spec
    have units : unit m c = unit n d := by
      rw [unit, unit, binaryOrder_eq hm hc spec.1 spec.2]
    rw [ofRatio_eq hm.ne', ofRatio_eq hn.ne', units, multiple_congr hc hd products]

/-- The multiple of a power of two that a quotient lies near to. -/
theorem multiple_of_near {n d k : Nat} (hd : 0 < d) {exponent : Int}
    (above : (n : ℚ) / d < (k + 1 / 2) * 2 ^ exponent)
    (below : (k - 1 / 2) * 2 ^ exponent < (n : ℚ) / d) : multiple n d exponent = k := by
  have hd' : (0 : ℚ) < d := by exact_mod_cast hd
  rw [div_lt_iff₀ hd'] at above
  rw [lt_div_iff₀ hd'] at below
  rw [multiple]
  split_ifs with he
  · rw [two_zpow_ofNat exponent he] at above below
    refine roundQuotient_of_near (Nat.mul_pos hd (Nat.pow_pos (by decide))) ?_ ?_
    · have scaled : (2 * n : ℚ) <
          2 * (k * (d * (Nat.pow 2 exponent.toNat : Nat))) + d * (Nat.pow 2 exponent.toNat : Nat) := by
        linarith
      exact_mod_cast scaled
    · have scaled : (2 * (k * (d * (Nat.pow 2 exponent.toNat : Nat))) : ℚ) <
          2 * n + d * (Nat.pow 2 exponent.toNat : Nat) := by
        linarith
      exact_mod_cast scaled
  · have hp : (0 : ℚ) < ((Nat.pow 2 (-exponent).toNat : Nat) : ℚ) := by
      exact_mod_cast Nat.pow_pos (by decide)
    rw [two_zpow_neg exponent (by omega), mul_right_comm, ← div_eq_mul_inv, lt_div_iff₀ hp] at above
    rw [two_zpow_neg exponent (by omega), mul_right_comm, ← div_eq_mul_inv, div_lt_iff₀ hp] at below
    refine roundQuotient_of_near hd ?_ ?_
    · have scaled : (2 * (n * (Nat.pow 2 (-exponent).toNat : Nat)) : ℚ) < 2 * (k * d) + d := by
        linarith
      exact_mod_cast scaled
    · have scaled : (2 * (k * d) : ℚ) < 2 * (n * (Nat.pow 2 (-exponent).toNat : Nat)) + d := by
        linarith
      exact_mod_cast scaled

section Near

variable {n d significand : Nat} {exponent : Int}

/-- A power of two, taken out of a product with another one. -/
theorem two_zpow_add (k : Nat) (exponent : Int) :
    (2 : ℚ) ^ (k + exponent) = 2 ^ k * 2 ^ exponent := by
  rw [zpow_add₀ two_ne_zero, zpow_natCast]

theorem two_zpow_pos (exponent : Int) : (0 : ℚ) < 2 ^ exponent := zpow_pos two_pos exponent

/-- A number of 53 bits is short of the next power of two by a whole unit. -/
theorem significand_le (bits : significand < 2 ^ 53) (exponent : Int) :
    (significand : ℚ) * 2 ^ exponent ≤ 2 ^ 53 * 2 ^ exponent - 2 ^ exponent := by
  have whole : (significand : ℚ) + 1 ≤ 2 ^ 53 := by exact_mod_cast bits
  have := mul_le_mul_of_nonneg_right whole (two_zpow_pos exponent).le
  linarith

/-- One part in 2^54 of a number of 53 bits is less than half a unit. -/
theorem error_lt (bits : significand < 2 ^ 53) :
    (significand : ℚ) * 2 ^ exponent / 2 ^ 54 < 2 ^ exponent / 2 := by
  have bound := significand_le bits exponent
  have := two_zpow_pos exponent
  norm_num at bound ⊢
  linarith

/-- The unit of a quotient that is less than half a unit above a number is not greater than that
of the number. -/
theorem unit_le_of_near (hn : 0 < n) (hd : 0 < d) (bits : significand < 2 ^ 53)
    (least : -1074 ≤ exponent)
    (above : (n : ℚ) / d < significand * 2 ^ exponent + 2 ^ exponent / 2) :
    unit n d ≤ exponent := by
  have order : binaryOrder n d < 53 + exponent := by
    refine (zpow_lt_zpow_iff_right₀ one_lt_two).mp ((binaryOrder_spec hn hd).1.trans_lt ?_)
    rw [show (53 : Int) = ((53 : Nat) : Int) from rfl, two_zpow_add]
    have := significand_le bits exponent
    have := two_zpow_pos exponent
    linarith
  rw [unit]
  omega

/-- A quotient of the same unit that is less than half a unit away is rounded to the number. -/
theorem ofRatio_of_unit_eq (negative : Bool) (hn : 0 < n) (hd : 0 < d)
    (bits : significand < 2 ^ 53) (greatest : exponent ≤ 971)
    (above : (n : ℚ) / d < significand * 2 ^ exponent + 2 ^ exponent / 2)
    (below : significand * 2 ^ exponent - 2 ^ exponent / 2 < (n : ℚ) / d)
    (same : unit n d = exponent) :
    ofRatio negative n d = .finite negative significand exponent := by
  have multiples : multiple n d exponent = significand := by
    refine multiple_of_near hd ?_ ?_ <;> linarith
  rw [ofRatio_eq hn.ne', same, multiples, settle, if_neg (show ¬ significand = Nat.pow 2 53 from
    bits.ne)]
  exact if_neg (not_lt.mpr greatest)

/-- The unit of a quotient that is less than half a unit below a number of all 53 bits is that of
the number, or half of it, and then the number is a power of two. -/
theorem unit_of_near (hn : 0 < n) (hd : 0 < d) (full : 2 ^ 52 ≤ significand)
    (below : significand * 2 ^ exponent - 2 ^ exponent / 2 < (n : ℚ) / d)
    (greatest : unit n d ≤ exponent) :
    unit n d = exponent ∨ unit n d = exponent - 1 ∧ significand = 2 ^ 52 := by
  have spec := binaryOrder_spec hn hd
  have one : (1 : ℚ) < 2 := one_lt_two
  have positive := two_zpow_pos exponent
  have order : 51 + exponent < binaryOrder n d + 1 := by
    refine (zpow_lt_zpow_iff_right₀ one).mp (lt_of_le_of_lt ?_ spec.2)
    rw [show (51 : Int) = ((51 : Nat) : Int) from rfl, two_zpow_add]
    have whole : (2 : ℚ) ^ 52 ≤ significand := by exact_mod_cast full
    have := mul_le_mul_of_nonneg_right whole positive.le
    norm_num at this ⊢
    linarith
  by_cases same : unit n d = exponent
  · exact Or.inl same
  · have lower : unit n d = exponent - 1 := by
      rw [unit] at same greatest ⊢
      omega
    have order_le : binaryOrder n d + 1 ≤ 52 + exponent := by
      rw [unit] at lower
      omega
    have small : (n : ℚ) / d < 2 ^ 52 * 2 ^ exponent := by
      have h := spec.2.trans_le (zpow_le_zpow_right₀ one.le order_le)
      rwa [show (52 : Int) = ((52 : Nat) : Int) from rfl, two_zpow_add] at h
    refine Or.inr ⟨lower, le_antisymm ?_ full⟩
    by_contra more
    have whole : (2 : ℚ) ^ 52 + 1 ≤ significand := by exact_mod_cast not_le.mp more
    have := mul_le_mul_of_nonneg_right whole positive.le
    linarith

/-- Below a power of two the numbers lie twice as close together. There the quotient is rounded to
2^53 of the smaller units, which is the power of two. -/
theorem ofRatio_of_unit_lower (negative : Bool) (hn : 0 < n) (hd : 0 < d)
    (greatest : exponent ≤ 971)
    (near : |(n : ℚ) / d - 2 ^ 52 * 2 ^ exponent| < 2 ^ 52 * 2 ^ exponent / 2 ^ 54)
    (lower : unit n d = exponent - 1) :
    ofRatio negative n d = .finite negative (2 ^ 52) exponent := by
  obtain ⟨above, below⟩ := abs_lt.mp near
  have positive := two_zpow_pos exponent
  have half : (2 : ℚ) ^ (exponent - 1) = 2 ^ exponent / 2 := by
    rw [zpow_sub_one₀ two_ne_zero, div_eq_mul_inv]
  have multiples : multiple n d (exponent - 1) = Nat.pow 2 53 := by
    refine multiple_of_near hd ?_ ?_ <;> rw [half] <;> norm_num at above below ⊢ <;> linarith
  rw [ofRatio_eq hn.ne', lower, multiples, settle, if_pos rfl]
  dsimp only
  rw [sub_add_cancel, if_neg (not_lt.mpr greatest)]
  rfl

/-- A quotient that differs from a canonical number by less than one part in 2^54 is rounded
to that number. -/
theorem ofRatio_of_near (negative : Bool) (hn : 0 < n) (hd : 0 < d)
    (canonical : (Double.finite negative significand exponent).IsCanonical)
    (near : |(n : ℚ) / d - significand * 2 ^ exponent| < significand * 2 ^ exponent / 2 ^ 54) :
    ofRatio negative n d = .finite negative significand exponent := by
  obtain ⟨bits, least, greatest, full⟩ := canonical
  obtain ⟨below, above⟩ := abs_lt.mp (near.trans (error_lt bits))
  have above : (n : ℚ) / d < significand * 2 ^ exponent + 2 ^ exponent / 2 := by linarith
  have below : significand * 2 ^ exponent - 2 ^ exponent / 2 < (n : ℚ) / d := by linarith
  have unit_le := unit_le_of_near hn hd bits least above
  rcases full with full | rfl
  · rcases unit_of_near hn hd full below unit_le with same | ⟨lower, rfl⟩
    · exact ofRatio_of_unit_eq negative hn hd bits greatest above below same
    · refine ofRatio_of_unit_lower negative hn hd greatest ?_ lower
      exact_mod_cast near
  -- the least unit of all is that of every quotient with no greater one
  · exact ofRatio_of_unit_eq negative hn hd bits greatest above below
      (le_antisymm unit_le (le_max_right _ _))

end Near

end Double

end SessionKeeper
