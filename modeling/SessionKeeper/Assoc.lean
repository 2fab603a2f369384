/-!
# Maps that remember the order of first insertion

A map is a list of key and value pairs. Writing to a key that is present keeps
its place, writing to a new key appends it, so the list order is the order in
which the keys were first added. Every operation is described through `value?`.
-/
namespace SessionKeeper

/-- A finite map in the order in which its keys were first added. -/
abbrev Assoc (κ α : Type) := List (κ × α)

namespace Assoc

variable {κ α : Type} [DecidableEq κ]

/-- The value of the first pair that carries the key. -/
def value? : Assoc κ α → κ → Option α
  | [], _ => none
  | (k, a) :: rest, key => if k = key then some a else value? rest key

def has (m : Assoc κ α) (key : κ) : Bool := (m.value? key).isSome

/-- Replaces the value of a present key in place and appends a new key. -/
def put : Assoc κ α → κ → α → Assoc κ α
  | [], key, value => [(key, value)]
  | (k, a) :: rest, key, value =>
    if k = key then (k, value) :: rest else (k, a) :: put rest key value

/-- Leaves out every pair of the key. -/
def remove : Assoc κ α → κ → Assoc κ α
  | [], _ => []
  | (k, a) :: rest, key => if k = key then remove rest key else (k, a) :: remove rest key

def keys (m : Assoc κ α) : List κ := m.map Prod.fst

/-- Builds the map that a sequence of writes leaves behind: each key stands where it
was first written and holds what was written last. -/
def ofPairs (pairs : List (κ × α)) : Assoc κ α :=
  pairs.foldl (fun m pair => put m pair.1 pair.2) []

@[simp] theorem value?_nil (key : κ) : value? ([] : Assoc κ α) key = none := rfl

@[simp] theorem value?_cons (k key : κ) (a : α) (rest : Assoc κ α) :
    value? ((k, a) :: rest) key = if k = key then some a else value? rest key := rfl

theorem value?_put (m : Assoc κ α) (key other : κ) (value : α) :
    (m.put key value).value? other = if key = other then some value else m.value? other := by
  induction m with
  | nil => rfl
  | cons pair rest ih =>
    obtain ⟨k, a⟩ := pair
    by_cases h : k = key
    · subst h
      simp only [put, if_true, value?_cons]
      split <;> rfl
    · simp only [put, h, if_false, value?_cons, ih]
      by_cases hk : k = other
      · subst hk
        simp [Ne.symm h]
      · simp [hk]

theorem value?_remove (m : Assoc κ α) (key other : κ) :
    (m.remove key).value? other = if key = other then none else m.value? other := by
  induction m with
  | nil => simp [remove]
  | cons pair rest ih =>
    obtain ⟨k, a⟩ := pair
    by_cases h : k = key
    · subst h
      simp only [remove, if_true, ih, value?_cons]
      split <;> rfl
    · simp only [remove, h, if_false, value?_cons, ih]
      by_cases hk : k = other
      · subst hk
        simp [Ne.symm h]
      · simp [hk]

@[simp] theorem value?_put_self (m : Assoc κ α) (key : κ) (value : α) :
    (m.put key value).value? key = some value := by simp [value?_put]

@[simp] theorem value?_remove_self (m : Assoc κ α) (key : κ) :
    (m.remove key).value? key = none := by simp [value?_remove]

/-- A new key goes to the end, a present one keeps its place. -/
theorem keys_put (m : Assoc κ α) (key : κ) (value : α) :
    (m.put key value).keys = if key ∈ m.keys then m.keys else m.keys ++ [key] := by
  induction m with
  | nil => simp [put, keys]
  | cons pair rest ih =>
    obtain ⟨k, a⟩ := pair
    by_cases h : k = key
    · subst h
      simp [put, keys]
    · simp only [put, h, if_false]
      simp only [keys] at ih ⊢
      by_cases hm : key ∈ rest.map Prod.fst <;> simp [ih, hm, Ne.symm h]

end Assoc
end SessionKeeper
