import SessionKeeper.Proofs.Script.Yields
import SessionKeeper.Proofs.Time.Seconds

/-!
# Durations in settings

Settings accept every number that is not at most zero, and not-a-number and infinity are among
them. What comes of an accepted number as a duration depends on its value: not-a-number is none,
neither is infinity or a number from 10^9 days on, and what is left is a duration that is positive
just when the number is above half a microsecond.
-/
namespace SessionKeeper

/-- What an accepted number of seconds is as a duration. -/
inductive Duration.Comes : Double → Except DurationFault Duration → Prop where
  | notANumber : Comes .nan (.error .notANumber)
  | infinite : Comes (.infinity false) (.error .tooLarge)
  | beyond {x : Double} {seconds : ℚ} (worth : x.IsWorth seconds)
      (large : 86400000000000 ≤ seconds) : Comes x (.error .tooLarge)
  | within {x : Double} {seconds : ℚ} {length : Duration} (worth : x.IsWorth seconds)
      (positive : 0 < seconds) (small : seconds < 86400000000000) (least : 0 ≤ length.micros)
      (lasts : 0 < length.micros ↔ 1 / 2000000 < seconds) : Comes x (.ok length)

/-- That a number is as a reader writes it and not at most zero. -/
structure Double.IsAccepted (x : Double) : Prop where
  canonical : x.IsCanonical
  above : x.isNonPositive = false

theorem Duration.comes_of_isAccepted {x : Double} (h : x.IsAccepted) :
    Comes x (ofSeconds x) := by
  obtain ⟨canonical, above⟩ := h
  cases x with
  | nan => exact .notANumber
  | infinity negative =>
    obtain rfl : negative = false := above
    exact .infinite
  | finite negative significand exponent =>
    obtain ⟨rfl, some⟩ : negative = false ∧ significand ≠ 0 := by
      simpa [Double.isNonPositive] using above
    have worth := Double.IsWorth.finite significand exponent
    have positive : 0 < Double.value false significand exponent := by
      have : (0 : ℚ) < significand := by exact_mod_cast Nat.pos_of_ne_zero some
      simp only [Double.value, Bool.false_eq_true, if_false]
      positivity
    obtain ⟨small, large⟩ := ofSeconds_spec canonical worth
    rcases lt_or_ge (Double.value false significand exponent) 86400000000000 with below | beyond
    · obtain ⟨length, same, least, lasts⟩ := small below
      rw [same]
      exact .within worth positive below least lasts
    · rw [large beyond]
      exact .beyond worth beyond

namespace Numeral

variable {cs : List Char} {x : Double}

theorem isCanonical_decimal? {negative : Bool} (h : decimal? negative cs = some x) :
    x.IsCanonical := by
  simp only [decimal?] at h
  split_ifs at h
  obtain ⟨exponent, -, rfl⟩ := Option.map_eq_some_iff.mp h
  exact Double.isCanonical_ofDecimal negative _ _

theorem isCanonical_plainDouble? (h : plainDouble? cs = some x) : x.IsCanonical := by
  simp only [plainDouble?] at h
  split_ifs at h
  · obtain rfl := Option.some.inj h
    trivial
  · obtain rfl := Option.some.inj h
    trivial
  · exact isCanonical_decimal? h

theorem isCanonical_double? (h : double? cs = some x) : x.IsCanonical := by
  rw [double?] at h
  split at h
  · rename_i plain
    obtain rfl := Option.some.inj h
    exact isCanonical_plainDouble? plain
  · obtain ⟨bare, -, plain⟩ := Option.bind_eq_some_iff.mp h
    exact isCanonical_plainDouble? plain

end Numeral

namespace Settings

variable {find : String → Option Text} {settings : Settings}

theorem isAccepted_of_duration {t : Text} {x : Double} (h : duration t = .ok x) :
    x.IsAccepted := by
  rw [duration] at h
  split at h
  · cases h
  · rename_i number spelled
    split_ifs at h with above
    · cases h
    obtain rfl := Except.ok.inj h
    obtain ⟨cs, -, read⟩ := Option.bind_eq_some_iff.mp spelled
    exact ⟨Numeral.isCanonical_double? read, by simpa using above⟩

/-- A variable has what its value is read as, or what stands for its absence. -/
theorem field_spec {α : Type} {P : α → Prop} {name : String} {absent a : α}
    {read : Text → Schema.Reading α} (h : field find name absent read = .ok a)
    (standard : P absent) (sound : ∀ t a, read t = .ok a → P a) : P a := by
  rw [field] at h
  cases told : find name with
  | none =>
    rw [told] at h
    exact Except.ok.inj h ▸ standard
  | some t =>
    rw [told] at h
    exact sound t a (Schema.under_eq_ok.mp h)

theorem isAccepted_of_read (h : read find = .ok settings) :
    settings.stateLifetime.IsAccepted ∧ settings.lockStaleAfter.IsAccepted := by
  obtain ⟨⟨folder, lifetime, stale, url, proxy, timeout, service, keychain, level⟩, parts, made⟩ :=
    exists_of_bind_ok h
  simp only [Schema.both_eq_ok] at parts
  obtain ⟨-, states, lock, -⟩ := parts
  obtain rfl := Except.ok.inj made
  exact ⟨field_spec states ⟨by decide +kernel, by decide +kernel⟩ fun _ _ => isAccepted_of_duration,
    field_spec lock ⟨by decide +kernel, by decide +kernel⟩ fun _ _ => isAccepted_of_duration⟩

/-- The durations of settings that were loaded are accepted numbers, whatever they were loaded
from. -/
theorem isAccepted_of_load {machine : Machine} (h : (load.exec machine).1 = .ok settings) :
    settings.stateLifetime.IsAccepted ∧ settings.lockStaleAfter.IsAccepted := by
  have any {α : Type} {x : Action α} {m : Machine} : x.Yields m fun _ _ => True :=
    fun _ _ _ => trivial
  have yields : load.Yields machine fun settings _ =>
      settings.stateLifetime.IsAccepted ∧ settings.lockStaleAfter.IsAccepted := by
    refine .bind any fun environment _ _ => .bind any fun file between _ => ?_
    rcases made : read (lookup environment file) with issues | told
    · exact .throw
    · exact .pure (isAccepted_of_read made)
  exact yields settings _ (Prod.ext h rfl)

end Settings

end SessionKeeper
