import SessionKeeper.Assoc
import Mathlib.Tactic

/-!
# Keys of a map

A map is written key by key, so the writes that build it leave each key once. Pairs with
distinct keys are the map they build.
-/
namespace SessionKeeper.Assoc

variable {κ α : Type}

@[simp] theorem keys_nil : keys ([] : Assoc κ α) = [] := rfl

@[simp] theorem keys_cons (pair : κ × α) (rest : Assoc κ α) :
    keys (pair :: rest) = pair.1 :: keys rest := rfl

theorem keys_map {β : Type} (m : Assoc κ α) (f : α → β) :
    keys (m.map fun pair => (pair.1, f pair.2)) = m.keys := by
  rw [keys, keys, List.map_map]
  rfl

theorem nodup_filter {m : Assoc κ α} (h : m.keys.Nodup) (p : κ × α → Bool) :
    (keys (m.filter p)).Nodup :=
  h.sublist (List.filter_sublist.map Prod.fst)

variable [DecidableEq κ]

theorem put_of_not_mem (m : Assoc κ α) (key : κ) (value : α) (h : key ∉ m.keys) :
    m.put key value = m ++ [(key, value)] := by
  induction m with
  | nil => rfl
  | cons pair rest ih =>
    obtain ⟨k, a⟩ := pair
    rw [keys_cons, List.mem_cons, not_or] at h
    rw [put, if_neg (Ne.symm h.1), ih h.2]
    rfl

/-- Pairs with distinct keys are the map that writing them one after the other builds. -/
theorem ofPairs_of_nodup (pairs : List (κ × α)) (h : (keys pairs).Nodup) : ofPairs pairs = pairs := by
  have gen : ∀ (rest front : List (κ × α)), (keys (front ++ rest)).Nodup →
      rest.foldl (fun m pair => put m pair.1 pair.2) front = front ++ rest := by
    intro rest
    induction rest with
    | nil =>
      intro front _
      rw [List.append_nil]
      rfl
    | cons pair rest ih =>
      intro front hn
      have hnot : pair.1 ∉ keys front := by
        rw [keys, List.map_append, List.nodup_append] at hn
        intro hm
        exact hn.2.2 _ hm _ (by simp) rfl
      rw [List.foldl_cons, put_of_not_mem _ _ _ hnot, ih (front ++ [(pair.1, pair.2)]) (by simpa using hn)]
      simp
  exact gen pairs [] h

theorem value?_isSome (m : Assoc κ α) (key : κ) : (m.value? key).isSome = true ↔ key ∈ m.keys := by
  induction m with
  | nil => simp
  | cons pair rest ih =>
    obtain ⟨k, a⟩ := pair
    rw [value?_cons, keys_cons, List.mem_cons]
    split_ifs with h
    · simp [h]
    · rw [ih]
      simp [Ne.symm h]

theorem has_iff (m : Assoc κ α) (key : κ) : m.has key = true ↔ key ∈ m.keys := m.value?_isSome key

theorem value?_eq_none (m : Assoc κ α) (key : κ) : m.value? key = none ↔ key ∉ m.keys := by
  rw [← value?_isSome, Bool.not_eq_true, Option.isSome_eq_false_iff, Option.isNone_iff_eq_none]

theorem keys_remove (m : Assoc κ α) (key : κ) : (m.remove key).keys = m.keys.filter (· ≠ key) := by
  induction m with
  | nil => rfl
  | cons pair rest ih =>
    obtain ⟨k, a⟩ := pair
    rw [remove]
    split_ifs with h
    · rw [ih, keys_cons, List.filter_cons_of_neg (by simpa using h)]
    · rw [keys_cons, keys_cons, List.filter_cons_of_pos (by simpa using h), ih]

theorem nodup_remove {m : Assoc κ α} (h : m.keys.Nodup) (key : κ) : (m.remove key).keys.Nodup := by
  rw [keys_remove]
  exact h.filter _

theorem nodup_put {m : Assoc κ α} (h : m.keys.Nodup) (key : κ) (value : α) :
    (m.put key value).keys.Nodup := by
  rw [keys_put]
  split_ifs with hm
  · exact h
  · rw [List.nodup_append]
    refine ⟨h, List.nodup_singleton key, ?_⟩
    intro a ha b hb
    rw [List.mem_singleton] at hb
    rintro rfl
    exact hm (hb ▸ ha)

theorem mem_keys_put (m : Assoc κ α) (key other : κ) (value : α) :
    other ∈ (m.put key value).keys ↔ other = key ∨ other ∈ m.keys := by
  rw [keys_put]
  split_ifs with hm
  · constructor
    · exact Or.inr
    · rintro (rfl | h)
      · exact hm
      · exact h
  · rw [List.mem_append, List.mem_singleton]
    exact or_comm

theorem mem_keys_remove (m : Assoc κ α) (key other : κ) :
    other ∈ (m.remove key).keys ↔ other ∈ m.keys ∧ other ≠ key := by
  rw [keys_remove, List.mem_filter]
  simp

/-- What writing leaves in a map is the new pair and the old ones of other keys. -/
theorem mem_put {m : Assoc κ α} (h : m.keys.Nodup) (key : κ) (value : α) (pair : κ × α)
    (hp : pair ∈ m.put key value) : pair = (key, value) ∨ (pair ∈ m ∧ pair.1 ≠ key) := by
  induction m with
  | nil => exact Or.inl (List.mem_singleton.mp hp)
  | cons first rest ih =>
    obtain ⟨k, a⟩ := first
    rw [keys_cons, List.nodup_cons] at h
    rw [put] at hp
    split_ifs at hp with hk
    · rcases List.mem_cons.mp hp with rfl | hp
      · exact Or.inl (by rw [hk])
      · refine Or.inr ⟨List.mem_cons_of_mem _ hp, ?_⟩
        intro heq
        exact h.1 (List.mem_map.mpr ⟨pair, hp, heq.trans hk.symm⟩)
    · rcases List.mem_cons.mp hp with rfl | hp
      · exact Or.inr ⟨List.mem_cons_self, hk⟩
      · rcases ih h.2 hp with heq | ⟨hm, hne⟩
        · exact Or.inl heq
        · exact Or.inr ⟨List.mem_cons_of_mem _ hm, hne⟩

/-- Every pair in a map that was written to is the new one or was there. -/
theorem eq_or_mem_of_mem_put {m : Assoc κ α} {key : κ} {value : α} {pair : κ × α}
    (hp : pair ∈ m.put key value) : pair = (key, value) ∨ pair ∈ m := by
  induction m with
  | nil => exact Or.inl (List.mem_singleton.mp hp)
  | cons first rest ih =>
    obtain ⟨k, a⟩ := first
    rw [put] at hp
    split_ifs at hp with hk
    · rcases List.mem_cons.mp hp with rfl | hp
      · exact Or.inl (by rw [hk])
      · exact Or.inr (List.mem_cons_of_mem _ hp)
    · rcases List.mem_cons.mp hp with rfl | hp
      · exact Or.inr List.mem_cons_self
      · exact (ih hp).imp_right (List.mem_cons_of_mem _)

/-- A map that was written to is not empty. -/
theorem put_ne_nil (m : Assoc κ α) (key : κ) (value : α) : m.put key value ≠ [] := by
  intro none_left
  have held := value?_put_self m key value
  rw [none_left] at held
  cases held

theorem mem_remove {m : Assoc κ α} {key : κ} {pair : κ × α} (hp : pair ∈ m.remove key) :
    pair ∈ m := by
  induction m with
  | nil => exact hp
  | cons first rest ih =>
    obtain ⟨k, a⟩ := first
    rw [remove] at hp
    split_ifs at hp
    · exact List.mem_cons_of_mem _ (ih hp)
    · rcases List.mem_cons.mp hp with rfl | hp
      · exact List.mem_cons_self
      · exact List.mem_cons_of_mem _ (ih hp)

theorem remove_of_not_mem {m : Assoc κ α} {key : κ} (h : key ∉ m.keys) : m.remove key = m := by
  induction m with
  | nil => rfl
  | cons first rest ih =>
    obtain ⟨k, a⟩ := first
    rw [keys_cons, List.mem_cons, not_or] at h
    rw [remove, if_neg (Ne.symm h.1), ih h.2]

theorem mem_of_value? {m : Assoc κ α} {key : κ} {value : α} (h : m.value? key = some value) :
    (key, value) ∈ m := by
  induction m with
  | nil => nomatch h
  | cons first rest ih =>
    obtain ⟨k, a⟩ := first
    rw [value?_cons] at h
    split_ifs at h with hk
    · rw [← hk, ← Option.some.inj h]
      exact List.mem_cons_self
    · exact List.mem_cons_of_mem _ (ih h)

/-- What was put under a key is taken out with it. -/
theorem remove_put_self (m : Assoc κ α) (key : κ) (value : α) :
    (m.put key value).remove key = m.remove key := by
  induction m with
  | nil => simp [put, remove]
  | cons first rest ih =>
    obtain ⟨k, a⟩ := first
    rw [put]
    split_ifs with h
    · simp [remove, h]
    · rw [remove, remove, if_neg h, if_neg h, ih]

/-- Leaving out pairs by their values leaves the other keys with theirs. -/
theorem value?_filter {m : Assoc κ α} (h : m.keys.Nodup) (p : α → Bool) (key : κ) :
    value? (m.filter fun pair => p pair.2) key = (m.value? key).filter p := by
  induction m with
  | nil => rfl
  | cons first rest ih =>
    obtain ⟨k, a⟩ := first
    rw [keys_cons, List.nodup_cons] at h
    have rest_of := ih h.2
    rw [List.filter_cons, value?_cons]
    by_cases hk : k = key
    · subst hk
      have absent : value? rest k = none := (value?_eq_none rest k).mpr h.1
      rw [absent] at rest_of
      rw [if_pos rfl, Option.filter_some]
      split_ifs
      · rw [value?_cons, if_pos rfl]
      · exact rest_of
    · rw [if_neg hk, ← rest_of]
      split_ifs
      · rw [value?_cons, if_neg hk]
      · rfl

theorem value?_map {β : Type} (m : Assoc κ α) (f : α → β) (key : κ) :
    value? (m.map fun pair => (pair.1, f pair.2)) key = (m.value? key).map f := by
  induction m with
  | nil => rfl
  | cons first rest ih =>
    obtain ⟨k, a⟩ := first
    rw [List.map_cons, value?_cons, value?_cons, ih]
    split_ifs <;> rfl

theorem value?_of_mem {m : Assoc κ α} (h : m.keys.Nodup) {pair : κ × α} (hp : pair ∈ m) :
    m.value? pair.1 = some pair.2 := by
  induction m with
  | nil => nomatch hp
  | cons first rest ih =>
    rw [keys_cons, List.nodup_cons] at h
    rcases List.mem_cons.mp hp with rfl | hm
    · exact if_pos rfl
    · have other : first.1 ≠ pair.1 := fun same => h.1 (List.mem_map.mpr ⟨pair, hm, same.symm⟩)
      exact (if_neg other).trans (ih h.2 hm)

/-- What is made of every pair by its key and value is made of a pair that is put there. -/
theorem map_put {β : Type} (m : Assoc κ α) (f : κ → α → β) (key : κ) (value : α) :
    (m.put key value).map (fun pair => (pair.1, f pair.1 pair.2)) =
      put (m.map fun pair => (pair.1, f pair.1 pair.2)) key (f key value) := by
  induction m with
  | nil => rfl
  | cons first rest ih =>
    obtain ⟨k, a⟩ := first
    rw [put, List.map_cons, put]
    split_ifs with same
    · rw [List.map_cons, same]
    · rw [List.map_cons, ih]

theorem map_remove {β : Type} (m : Assoc κ α) (f : κ → α → β) (key : κ) :
    (m.remove key).map (fun pair => (pair.1, f pair.1 pair.2)) =
      remove (m.map fun pair => (pair.1, f pair.1 pair.2)) key := by
  induction m with
  | nil => rfl
  | cons first rest ih =>
    obtain ⟨k, a⟩ := first
    rw [remove, List.map_cons, remove]
    split_ifs
    · exact ih
    · rw [List.map_cons, ih]

end SessionKeeper.Assoc
