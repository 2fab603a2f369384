import Mathlib.Tactic.SplitIfs
import SessionKeeper.Text.Basic

/-!
# Texts in order

The order of texts by their code points is a total one, so sorting gives the texts that were given,
each before the ones it precedes.
-/
namespace SessionKeeper.Text

theorem precedes_total (s t : Text) : (precedes s t || precedes t s) = true := by
  induction s, t using precedes.induct with
  | case1 t => rfl
  | case2 p s => rfl
  | case3 p s q t lt => simp [precedes, lt]
  | case4 p s q t nlt lt => simp [precedes, lt]
  | case5 p s q t nlt nlt' ih => simpa [precedes, nlt, nlt'] using ih

theorem precedes_trans (r s t : Text) (hrs : precedes r s = true) (hst : precedes s t = true) :
    precedes r t = true := by
  induction r generalizing s t with
  | nil => rfl
  | cons p r ih =>
    cases s with
    | nil => nomatch hrs
    | cons q s =>
      cases t with
      | nil => nomatch hst
      | cons u t =>
        simp only [precedes] at hrs hst ⊢
        split_ifs at hrs hst ⊢ <;> first | rfl | omega | exact ih s t hrs hst

/-- Texts in order are those that were given, each before the ones it precedes. -/
theorem sorted_spec (ts : List Text) :
    (sorted ts).Perm ts ∧ (sorted ts).Pairwise fun s t => precedes s t = true :=
  ⟨List.mergeSort_perm ts precedes, List.pairwise_mergeSort precedes_trans precedes_total ts⟩

end SessionKeeper.Text
