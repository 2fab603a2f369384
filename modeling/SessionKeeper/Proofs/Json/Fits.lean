import SessionKeeper.Json.Printer
import SessionKeeper.Proofs.Assoc

/-!
# What there is room for

A value fits when its integers are short and no container in it stands deeper than there is room
for. What fits still does with more room, and a container fits when what is inside it does with one
level less.
-/
namespace SessionKeeper.Json

/-- What holds of a container when it does of all directly inside it holds of every value. -/
@[elab_as_elim]
theorem induction_mem {P : Json → Prop} (null : P .null) (bool : ∀ b, P (.bool b))
    (int : ∀ n, P (.int n)) (float : ∀ x, P (.float x)) (str : ∀ t, P (.str t))
    (arr : ∀ items, (∀ v ∈ items, P v) → P (.arr items))
    (obj : ∀ members : List (Text × Json), (∀ m ∈ members, P m.2) → P (.obj members)) :
    ∀ v, P v
  | .null => null
  | .bool b => bool b
  | .int n => int n
  | .float x => float x
  | .str t => str t
  | .arr items => arr items fun v _ => induction_mem null bool int float str arr obj v
  | .obj members => obj members fun m _ => induction_mem null bool int float str arr obj m.2
termination_by v => sizeOf v
decreasing_by
  · rename_i hv
    have := List.sizeOf_lt_of_mem hv
    simp only [Json.arr.sizeOf_spec]
    omega
  · rename_i hm
    have := List.sizeOf_lt_of_mem hm
    obtain ⟨_, _⟩ := m
    simp only [Json.obj.sizeOf_spec, Prod.mk.sizeOf_spec] at this ⊢
    omega

variable {room : Nat}

theorem limit?_eq_none {v : Json} : v.limit? room = none ↔ v.fits room = true :=
  Option.isNone_iff_eq_none.symm

@[simp] theorem fits_null : Json.null.fits room = true := by cases room <;> rfl

@[simp] theorem fits_bool (b : Bool) : (Json.bool b).fits room = true := by cases room <;> rfl

@[simp] theorem fits_float (x : Double) : (Json.float x).fits room = true := by cases room <;> rfl

@[simp] theorem fits_str (t : Text) : (Json.str t).fits room = true := by cases room <;> rfl

theorem fits_int {n : Int} : (Json.int n).fits room = true ↔ n.natAbs < digitLimit := by
  rw [fits, limit?]
  split_ifs with short
  · exact iff_of_true rfl short
  · exact iff_of_false nofun short

theorem limit?_natCast {n : Nat} (long : digitLimit ≤ n) :
    (Json.int n).limit? room = some (.digits none) := by
  rw [limit?, if_neg (by rw [Int.natAbs_natCast]; omega)]

theorem fits_arr (items : List Json) :
    (Json.arr items).fits (room + 1) = true ↔ ∀ v ∈ items, v.fits room = true := by
  rw [fits, limit?]
  induction items with
  | nil => simp [itemsLimit?]
  | cons item rest ih =>
    rw [itemsLimit?, Option.isNone_or, Bool.and_eq_true, ih, List.forall_mem_cons]
    rfl

theorem fits_obj (members : Assoc Text Json) :
    (Json.obj members).fits (room + 1) = true ↔ ∀ m ∈ members, m.2.fits room = true := by
  rw [fits, limit?]
  induction members with
  | nil => simp [membersLimit?]
  | cons member rest ih =>
    rw [membersLimit?, Option.isNone_or, Bool.and_eq_true, ih, List.forall_mem_cons]
    rfl

theorem exists_room_of_arr {items : List Json} (h : (Json.arr items).fits room = true) :
    ∃ inner, room = inner + 1 := by
  cases room with
  | zero => cases h
  | succ inner => exact ⟨inner, rfl⟩

theorem exists_room_of_obj {members : Assoc Text Json} (h : (Json.obj members).fits room = true) :
    ∃ inner, room = inner + 1 := by
  cases room with
  | zero => cases h
  | succ inner => exact ⟨inner, rfl⟩

theorem fits_of_le {v : Json} {wide : Nat} (le : room ≤ wide) (h : v.fits room = true) :
    v.fits wide = true := by
  induction v using induction_mem generalizing room wide with
  | null => exact fits_null
  | bool b => exact fits_bool b
  | int n => exact fits_int.mpr (fits_int.mp h)
  | float x => exact fits_float x
  | str t => exact fits_str t
  | arr items ih =>
    obtain ⟨inner, rfl⟩ := exists_room_of_arr h
    obtain ⟨more, rfl⟩ := Nat.exists_eq_add_of_lt le
    rw [fits_arr] at h ⊢
    exact fun v hv => ih v hv (by omega) (h v hv)
  | obj members ih =>
    obtain ⟨inner, rfl⟩ := exists_room_of_obj h
    obtain ⟨more, rfl⟩ := Nat.exists_eq_add_of_lt le
    rw [fits_obj] at h ⊢
    exact fun m hm => ih m hm (by omega) (h m hm)

theorem fits_remove {members : Assoc Text Json} (h : (Json.obj members).fits room = true)
    (name : Text) : (Json.obj (members.remove name)).fits room = true := by
  obtain ⟨inner, rfl⟩ := exists_room_of_obj h
  rw [fits_obj] at h ⊢
  exact fun m hm => h m (Assoc.mem_remove hm)

/-- What is put among values that fit meets the same limit as it does alone. -/
theorem limit?_put {members : Assoc Text Json}
    (h : (Json.obj members).fits (room + 1) = true) (name : Text) (value : Json) :
    (Json.obj (members.put name value)).limit? (room + 1) = value.limit? room := by
  rw [fits_obj] at h
  rw [limit?]
  induction members with
  | nil => exact Option.or_none
  | cons member rest ih =>
    have first := limit?_eq_none.mpr (h member List.mem_cons_self)
    have others := fun m hm => h m (List.mem_cons_of_mem _ hm)
    rw [Assoc.put]
    split_ifs
    · have clear : membersLimit? room rest = none := limit?_eq_none.mpr ((fits_obj rest).mpr others)
      rw [membersLimit?, clear, Option.or_none]
    · rw [membersLimit?, first, Option.none_or]
      exact ih others

/-- Of what is put into an object that fits only the new value can be refused. -/
theorem fits_put {members : Assoc Text Json} (h : (Json.obj members).fits (room + 1) = true)
    (name : Text) (value : Json) :
    (Json.obj (members.put name value)).fits (room + 1) = value.fits room :=
  congrArg Option.isNone (limit?_put h name value)

/-- Arrays in each other, so many levels deep. -/
def nested : Nat → Json
  | 0 => .null
  | levels + 1 => .arr [nested levels]

theorem fits_nested {levels : Nat} : (nested levels).fits room = true ↔ levels ≤ room := by
  induction levels generalizing room with
  | zero => simp [nested]
  | succ levels ih =>
    cases room with
    | zero => exact iff_of_false nofun (by omega)
    | succ room =>
      rw [nested, fits_arr, List.forall_mem_singleton, ih]
      omega

theorem fits_roomy [Runtime] {v : Json} (h : v.fits room = true) (few : room ≤ 8) :
    v.fits Runtime.reads = true := fits_of_le (few.trans Runtime.roomy) h

theorem fits_prints [Runtime] {v : Json} (h : v.fits (Runtime.reads + 1) = true) :
    v.fits (Runtime.prints + 1) = true :=
  fits_of_le (Nat.succ_le_succ Runtime.reads_le_prints) h

end SessionKeeper.Json
