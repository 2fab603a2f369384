import Mathlib.Data.List.DropRight
import SessionKeeper.Proofs.Json.Surrogate
import SessionKeeper.Text.Blank

/-!
# Trimmed texts

A text has something left when it is trimmed as long as one of its points is not blank.
Joining surrogate pairs and trimming once more change nothing about that.
-/
namespace SessionKeeper.Text

theorem trim_ne_nil (t : Text) : t.trim ≠ [] ↔ ∃ p ∈ t, isBlank p = false := by
  have left : ∀ u : Text, u.dropWhile isBlank ≠ [] ↔ ∃ p ∈ u, isBlank p = false := by
    intro u
    simp
  rw [trim, trimRight, ne_eq, List.reverse_eq_nil_iff, ← ne_eq, left]
  constructor
  · rintro ⟨p, hp, hb⟩
    exact ⟨p, (List.dropWhile_sublist _).subset (List.mem_reverse.mp hp), hb⟩
  · intro h
    have ht := (left t).mpr h
    exact ⟨t.trimLeft.head ht, List.mem_reverse.mpr (List.head_mem ht),
      List.head_dropWhile_not isBlank ht⟩

theorem isBlank_joinPair {p q : Point}
    (h : (Json.isLeading p.code && Json.isTrailing q.code) = true) :
    isBlank (Json.joinPair p.code q.code) = false := by
  rw [Bool.and_eq_true, Json.isLeading_iff, Json.isTrailing_iff] at h
  have hn : 0x10000 ≤ 0x10000 + (p.code - 0xD800) * 1024 + (q.code - 0xDC00) := by omega
  have hm : 0x10000 + (p.code - 0xD800) * 1024 + (q.code - 0xDC00) < 0x110000 := by omega
  rw [Json.joinPair]
  generalize 0x10000 + (p.code - 0xD800) * 1024 + (q.code - 0xDC00) = n at hn hm
  have hv : n.isValidChar := Or.inr ⟨by omega, hm⟩
  have hc : (Char.ofNat n).toNat = n := by
    rw [Char.ofNat, dif_pos hv]
    rfl
  rw [Point.ofCode, dif_neg (by omega), isBlank, isBlankChar, hc, Bool.eq_false_iff]
  intro hb
  simp [isBlankCode, wideBlanks] at hb
  omega

/-- Joining pairs leaves no text blank that was not blank. -/
theorem trim_rejoin_ne_nil {t : Text} (h : t.trim ≠ []) : t.rejoin.trim ≠ [] := by
  rw [trim_ne_nil] at h ⊢
  induction t using rejoin.induct with
  | case1 => exact h
  | case2 p => exact h
  | case3 p q rest hp ih =>
    rw [rejoin, if_pos hp]
    exact ⟨_, List.mem_cons_self, isBlank_joinPair hp⟩
  | case4 p q rest hp ih =>
    rw [rejoin, if_neg hp]
    obtain ⟨r, hr, hb⟩ := h
    rcases List.mem_cons.mp hr with rfl | hr
    · exact ⟨r, List.mem_cons_self, hb⟩
    · obtain ⟨s, hs, hsb⟩ := ih ⟨r, hr, hb⟩
      exact ⟨s, List.mem_cons_of_mem _ hs, hsb⟩

theorem trim_trim (t : Text) : t.trim.trim = t.trim := by
  have hl : t.trim.trimLeft = t.trim := by
    rw [trimLeft, List.dropWhile_eq_self_iff]
    intro h
    obtain ⟨rest, hr⟩ : t.trim <+: t.trimLeft := List.rdropWhile_prefix isBlank t.trimLeft
    have hne : t.trimLeft ≠ [] := by
      intro hn
      rw [hn] at hr
      rw [(List.append_eq_nil_iff.mp hr).1] at h
      exact absurd h (by simp)
    have hb := List.head_dropWhile_not isBlank hne
    have hh : t.trim[0] = t.trimLeft.head hne := by
      simp only [← hr, List.head_append_of_ne_nil (List.ne_nil_of_length_pos h), List.head_eq_getElem]
    rw [hh]
    exact Bool.eq_false_iff.mp hb
  have hr : t.trim.trimRight = t.trim := List.rdropWhile_idempotent isBlank t.trimLeft
  rw [trim, hl, hr]

end SessionKeeper.Text
