import SessionKeeper.Proofs.Assoc
import SessionKeeper.Proofs.Json.Reread
import SessionKeeper.Text.Blank

/-!
# Values that come back as they were

Text is joined when no leading surrogate in it is directly followed by a trailing one.
A value is settled when all its strings and names are joined and no object in it has a
name twice. Settled values are those that reading gives back unchanged, and whatever
was read is settled.
-/
namespace SessionKeeper.Text

/-- That no leading surrogate is directly followed by a trailing one. -/
def IsJoined (t : Text) : Prop :=
  t.IsChain fun p q => (Json.isLeading p.code && Json.isTrailing q.code) = false

instance (t : Text) : Decidable t.IsJoined :=
  inferInstanceAs (Decidable (t.IsChain _))

theorem rejoin_of_isJoined {t : Text} (h : t.IsJoined) : t.rejoin = t := by
  induction t with
  | nil => rfl
  | cons p rest ih =>
    have hp : (Json.isLeading p.code && startsTrailing rest) = false := by
      cases rest with
      | nil => exact Bool.and_false _
      | cons q more => exact (List.isChain_cons_cons.mp h).1
    rw [rejoin_cons p rest hp, ih (List.IsChain.tail h)]

theorem isTrailing_char (c : Char) : Json.isTrailing (Point.char c).code = false := by
  have h := Utf8.isScalar_toNat c
  unfold Utf8.IsScalar at h
  rw [Bool.eq_false_iff, ne_eq, Json.isTrailing_iff]
  show ¬ (0xDC00 ≤ c.toNat ∧ c.toNat < 0xE000)
  omega

/-- The point of a joined pair is a character, so it belongs to no further pair. -/
theorem exists_joinPair_eq_char (n m : Nat) : ∃ c, Json.joinPair n m = .char c := by
  have outside : ¬ (0xD800 ≤ 0x10000 + (n - 0xD800) * 1024 + (m - 0xDC00) ∧
      0x10000 + (n - 0xD800) * 1024 + (m - 0xDC00) < 0xE000) := by omega
  exact ⟨_, by rw [Json.joinPair, Point.ofCode, dif_neg outside]⟩

theorem startsTrailing_rejoin {t : Text} (h : t.startsTrailing = false) :
    t.rejoin.startsTrailing = false := by
  match t with
  | [] => rfl
  | [p] => exact h
  | p :: q :: rest =>
    rw [rejoin]
    split_ifs
    · obtain ⟨c, hc⟩ := exists_joinPair_eq_char p.code q.code
      rw [hc]
      exact isTrailing_char c
    · exact h

theorem isJoined_cons {p : Point} {t : Text}
    (h : (Json.isLeading p.code && t.startsTrailing) = false) (ht : t.IsJoined) :
    IsJoined (p :: t) := by
  cases t with
  | nil => exact List.isChain_singleton p
  | cons q rest => exact List.isChain_cons_cons.mpr ⟨h, ht⟩

theorem isJoined_rejoin (t : Text) : t.rejoin.IsJoined := by
  match t with
  | [] => exact List.isChain_nil
  | [p] => exact List.isChain_singleton p
  | p :: q :: rest =>
    rw [rejoin]
    split_ifs with hpair
    · obtain ⟨c, hc⟩ := exists_joinPair_eq_char p.code q.code
      refine isJoined_cons ?_ (isJoined_rejoin rest)
      rw [hc, Json.isLeading_char, Bool.false_and]
    · refine isJoined_cons ?_ (isJoined_rejoin (q :: rest))
      cases hp : Json.isLeading p.code with
      | false => exact Bool.false_and _
      | true =>
        rw [Bool.true_and]
        refine startsTrailing_rejoin ?_
        rw [hp, Bool.true_and, Bool.not_eq_true] at hpair
        exact hpair

theorem isJoined_iff (t : Text) : t.IsJoined ↔ t.rejoin = t := by
  constructor
  · exact rejoin_of_isJoined
  · intro h
    rw [← h]
    exact isJoined_rejoin t

theorem isJoined_ofChars (cs : List Char) : (ofChars cs).IsJoined := by
  rw [isJoined_iff]
  exact rejoin_ofChars cs

theorem isJoined_append_ofChars {t : Text} (h : t.IsJoined) (cs : List Char) :
    IsJoined (t ++ ofChars cs) := by
  have start : startsTrailing (ofChars cs) = false := by
    cases cs with
    | nil => rfl
    | cons c cs => exact isTrailing_char c
  induction t with
  | nil => exact isJoined_ofChars cs
  | cons p rest ih =>
    refine isJoined_cons ?_ (ih (List.IsChain.tail h))
    cases rest with
    | nil =>
      show (_ && startsTrailing (ofChars cs)) = false
      rw [start, Bool.and_false]
    | cons q more => exact (List.isChain_cons_cons.mp h).1

theorem isJoined_trim {t : Text} (h : t.IsJoined) : t.trim.IsJoined := by
  have left : t.trimLeft <:+ t := List.dropWhile_suffix _
  have right : t.trimLeft.trimRight <+: t.trimLeft := by
    rw [← List.reverse_suffix, trimRight, List.reverse_reverse]
    exact List.dropWhile_suffix _
  exact List.IsChain.infix h (right.isInfix.trans left.isInfix)

theorem isJoined_ofString (s : String) : (ofString s).IsJoined := isJoined_ofChars s.toList

end SessionKeeper.Text

namespace SessionKeeper.Json

mutual

/-- Whether all strings and names in the value are joined and no object has a name twice. -/
def isSettled : Json → Bool
  | .str t => decide t.IsJoined
  | .arr items => areSettled items
  | .obj members => decide (Assoc.keys members).Nodup && membersSettled members
  | _ => true

def areSettled : List Json → Bool
  | [] => true
  | item :: rest => isSettled item && areSettled rest

def membersSettled : List (Text × Json) → Bool
  | [] => true
  | (name, value) :: rest => decide name.IsJoined && isSettled value && membersSettled rest

end

theorem areSettled_iff (items : List Json) :
    areSettled items = true ↔ ∀ v ∈ items, v.isSettled = true := by
  induction items with
  | nil => simp [areSettled]
  | cons item rest ih => simp [areSettled, ih]

theorem membersSettled_iff (members : List (Text × Json)) :
    membersSettled members = true ↔ ∀ m ∈ members, m.1.IsJoined ∧ m.2.isSettled = true := by
  induction members with
  | nil => simp [membersSettled]
  | cons member rest ih =>
    obtain ⟨name, value⟩ := member
    simp [membersSettled, ih, and_assoc]

theorem rereadItems_of_forall {items : List Json} (h : ∀ v ∈ items, v.reread = v) :
    rereadItems items = items := by
  induction items with
  | nil => rfl
  | cons item rest ih =>
    rw [rereadItems, h item List.mem_cons_self, ih fun v hv => h v (List.mem_cons_of_mem _ hv)]

theorem rereadMembers_of_forall {members : List (Text × Json)}
    (h : ∀ m ∈ members, m.1.rejoin = m.1 ∧ m.2.reread = m.2) :
    rereadMembers members = members := by
  induction members with
  | nil => rfl
  | cons member rest ih =>
    obtain ⟨name, value⟩ := member
    obtain ⟨hn, hv⟩ := h (name, value) List.mem_cons_self
    rw [rereadMembers, hn, hv, ih fun m hm => h m (List.mem_cons_of_mem _ hm)]

/-- A settled value comes back as it was. -/
theorem reread_of_isSettled : ∀ v : Json, v.isSettled = true → v.reread = v
  | .null, _ => rfl
  | .bool _, _ => rfl
  | .int _, _ => rfl
  | .float _, _ => rfl
  | .str t, h => by
    rw [isSettled, decide_eq_true_iff] at h
    rw [reread, Text.rejoin_of_isJoined h]
  | .arr items, h => by
    rw [isSettled, areSettled_iff] at h
    have same : ∀ v ∈ items, v.reread = v := by
      intro v hv
      exact reread_of_isSettled v (h v hv)
    rw [reread, rereadItems_of_forall same]
  | .obj members, h => by
    rw [isSettled, Bool.and_eq_true, decide_eq_true_iff, membersSettled_iff] at h
    have same : ∀ m ∈ members, m.1.rejoin = m.1 ∧ m.2.reread = m.2 := by
      intro m hm
      exact ⟨Text.rejoin_of_isJoined (h.2 m hm).1, reread_of_isSettled m.2 (h.2 m hm).2⟩
    rw [reread, rereadMembers_of_forall same, Assoc.ofPairs_of_nodup members h.1]
termination_by v => sizeOf v
decreasing_by
  · have := List.sizeOf_lt_of_mem hv
    simp only [Json.arr.sizeOf_spec]
    omega
  · have := List.sizeOf_lt_of_mem hm
    obtain ⟨_, _⟩ := m
    simp only [Json.obj.sizeOf_spec, Prod.mk.sizeOf_spec] at this ⊢
    omega

/-- The members of a settled object come back as they were. -/
theorem ofPairs_rereadMembers {members : Assoc Text Json}
    (h : (Json.obj members).isSettled = true) : Assoc.ofPairs (rereadMembers members) = members :=
  Json.obj.inj (reread_of_isSettled (.obj members) h)

theorem isCanonical_obj (members : Assoc Text Json) :
    (Json.obj members).isCanonical = true ↔ ∀ m ∈ members, m.2.isCanonical = true := by
  constructor
  · exact memberValuesCanonical_mem
  · intro h
    show memberValuesCanonical members = true
    induction members with
    | nil => rfl
    | cons member rest ih =>
      obtain ⟨name, value⟩ := member
      rw [memberValuesCanonical, Bool.and_eq_true]
      exact ⟨h _ List.mem_cons_self, ih fun m hm => h m (List.mem_cons_of_mem _ hm)⟩

/-- Whether the value is settled and all its floating point numbers are canonical. -/
def isPlain (v : Json) : Bool := v.isSettled && v.isCanonical

theorem isPlain_obj (members : Assoc Text Json) : (Json.obj members).isPlain = true ↔
    members.keys.Nodup ∧ ∀ m ∈ members, m.1.IsJoined ∧ m.2.isPlain = true := by
  rw [isPlain, Bool.and_eq_true, isCanonical_obj, isSettled, Bool.and_eq_true, decide_eq_true_iff,
    membersSettled_iff]
  constructor
  · rintro ⟨⟨hn, hs⟩, hf⟩
    refine ⟨hn, fun m hm => ⟨(hs m hm).1, ?_⟩⟩
    rw [isPlain, (hs m hm).2, hf m hm]
    rfl
  · rintro ⟨hn, h⟩
    have both (m : Text × Json) (hm : m ∈ members) := (h m hm).2
    simp only [isPlain, Bool.and_eq_true] at both
    exact ⟨⟨hn, fun m hm => ⟨(h m hm).1, (both m hm).1⟩⟩, fun m hm => (both m hm).2⟩

theorem isPlain_nested (levels : Nat) : (nested levels).isPlain = true := by
  induction levels with
  | zero => rfl
  | succ levels ih =>
    rw [isPlain, Bool.and_eq_true] at ih ⊢
    rw [nested, isSettled, areSettled, ih.1, isCanonical, areCanonical, ih.2]
    exact ⟨rfl, rfl⟩

theorem isPlain_put {members : Assoc Text Json} (h : (Json.obj members).isPlain = true)
    {name : Text} (hn : name.IsJoined) {value : Json} (hv : value.isPlain = true) :
    (Json.obj (members.put name value)).isPlain = true := by
  rw [isPlain_obj] at h ⊢
  refine ⟨Assoc.nodup_put h.1 name value, fun m hm => ?_⟩
  rcases Assoc.mem_put h.1 name value m hm with rfl | ⟨hm, -⟩
  · exact ⟨hn, hv⟩
  · exact h.2 m hm

theorem isPlain_remove {members : Assoc Text Json} (h : (Json.obj members).isPlain = true)
    (name : Text) : (Json.obj (members.remove name)).isPlain = true := by
  rw [isPlain_obj] at h ⊢
  exact ⟨Assoc.nodup_remove h.1 name, fun m hm => h.2 m (Assoc.mem_remove hm)⟩

end SessionKeeper.Json
