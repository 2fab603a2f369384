import SessionKeeper.Proofs.Json.Parsed
import SessionKeeper.Proofs.Json.Reread

/-!
# Where reading meets a limit

Reading stops with an error of its own at an integer of more than 4300 digits and at a container for
which there is no room, neither of which is taken for a malformed document. The first is only given
for digits that stand in the text one after the other, the second only in a text with more brackets
than there is room for, so every other text is read or found malformed. With less room the result is
the same or there are too many levels, which settles what becomes of a document that one reader can
read and another one cannot. The fuel that a document is given is always enough.
-/
namespace SessionKeeper.Json

/-- That so many decimal digits stand in a text one after the other. -/
def HasDigits (count : Nat) (t : Text) : Prop :=
  ∃ ds : List Char, (∀ c ∈ ds, c.isDigit = true) ∧ ds.length = count ∧ Text.ofChars ds <:+: t

/-- That so many digits are too many, and stand in the text. -/
def IsOverlong (count : Nat) (t : Text) : Prop := 4300 < count ∧ HasDigits count t

theorem IsOverlong.of_suffix {count : Nat} {t rest : Text} (h : IsOverlong count rest)
    (hs : rest <:+ t) : IsOverlong count t := by
  obtain ⟨long, ds, digits, length, there⟩ := h
  exact ⟨long, ds, digits, length, there.trans hs.isInfix⟩

theorem IsOverlong.cons {count : Nat} {t : Text} (h : IsOverlong count t) (p : Point) :
    IsOverlong count (p :: t) := h.of_suffix (List.suffix_cons p t)

theorem ofChars_takeDigits (t : Text) : Text.ofChars (takeDigits t).1 <+: t := by
  suffices same : Text.ofChars (Text.scalars (t.takeWhile isDigit)) = t.takeWhile isDigit by
    rw [takeDigits, same]
    exact List.takeWhile_prefix _
  induction t with
  | nil => rfl
  | cons p rest ih =>
    rw [List.takeWhile_cons]
    split
    · cases p with
      | char c => simpa [Text.scalars, Text.ofChars, Point.toChar?] using ih
      | surrogate index => contradiction
    · rfl

/-- Whether the code point opens an array or an object. -/
def isOpening (p : Point) : Bool := p = .char '[' || p = .char '\x7b'

/-- That a text goes beyond a limit where there is room for so many levels. -/
def Exceeds (room : Nat) (t : Text) : Limit → Prop
  | .digits (some count) => IsOverlong count t
  | .levels .array | .levels .object => room < t.countP isOpening
  | _ => False

theorem Exceeds.of_suffix {room : Nat} {t rest : Text} {limit : Limit} (h : Exceeds room rest limit)
    (hs : rest <:+ t) : Exceeds room t limit := by
  have count : rest.countP isOpening ≤ t.countP isOpening := hs.sublist.countP_le
  match limit, h with
  | .digits (some _), h => exact IsOverlong.of_suffix h hs
  | .levels .array, h => exact Nat.lt_of_lt_of_le h count
  | .levels .object, h => exact Nat.lt_of_lt_of_le h count

/-- What goes beyond a limit behind an opening bracket does so with it and one level more. -/
theorem Exceeds.enclosed {room : Nat} {t rest : Text} {p : Point} {limit : Limit}
    (h : Exceeds room rest limit) (opening : isOpening p = true) (hs : rest <:+ t) :
    Exceeds (room + 1) (p :: t) limit := by
  have count : rest.countP isOpening + 1 ≤ (p :: t).countP isOpening := by
    rw [List.countP_cons_of_pos opening]
    exact Nat.succ_le_succ hs.sublist.countP_le
  match limit, h with
  | .digits (some _), h => exact (IsOverlong.of_suffix h hs).cons p
  | .levels .array, h => exact Nat.lt_of_lt_of_le (Nat.succ_lt_succ h) count
  | .levels .object, h => exact Nat.lt_of_lt_of_le (Nat.succ_lt_succ h) count

/-- A step after one that succeeded stops, or the first one did. -/
theorem bind_error {α β : Type} {x : Outcome α} {f : α → Outcome β} {fault : ReadFault}
    (h : (x >>= f) = .error fault) : x = .error fault ∨ ∃ a, x = .ok a ∧ f a = .error fault := by
  cases x with
  | error other =>
    obtain rfl := Except.error.inj (show Except.error other = (.error fault : Outcome β) from h)
    exact .inl rfl
  | ok a => exact .inr ⟨a, rfl, h⟩

variable {room : Nat} {t : Text} {limit : Limit}

theorem readText_error : readText t ≠ .error (.beyond limit) := by
  intro h
  rw [readText] at h
  split at h <;> cases h

theorem readName_error : readName t ≠ .error (.beyond limit) := by
  intro h
  rw [readName.eq_def] at h
  split at h
  · obtain failed | ⟨_, -, failed⟩ := bind_error h
    · exact readText_error failed
    · dsimp only at failed
      split at failed <;> cases failed
  · cases h

theorem readRest_error {negative : Bool} {whole : List Char}
    (h : readRest negative whole t = .error (.beyond limit)) :
    limit = .digits (some whole.length) ∧ 4300 < whole.length := by
  rw [readRest] at h
  dsimp only at h
  split_ifs at h with empty plain long
  · cases h
  · obtain rfl := ReadFault.beyond.inj (Except.error.inj h)
    exact ⟨rfl, long⟩

theorem readUnsigned_error {negative : Bool}
    (h : readUnsigned negative t = .error (.beyond limit)) :
    Exceeds room t limit := by
  rw [readUnsigned.eq_def] at h
  split at h
  rename_i whole more heq
  obtain ⟨rfl, long⟩ := readRest_error h
  split at heq
  · obtain ⟨rfl, rfl⟩ := Prod.mk.inj heq
    exact absurd long (by decide)
  · have digits := isDigit_takeDigits t
    have front := ofChars_takeDigits t
    rw [heq] at digits front
    exact ⟨long, whole, digits, rfl, front.isInfix⟩

theorem readScalar_error (h : readScalar t = .error (.beyond limit)) : Exceeds room t limit := by
  rw [readScalar.eq_def] at h
  split at h
  · cases h
  · split at h
    · exact (readUnsigned_error h).of_suffix (List.suffix_cons _ _)
    · exact readUnsigned_error h

/-- Where reading with so much fuel stops at a limit, the text goes beyond it. One step of reading a
value, an item or a member rests on those with less fuel. -/
structure StopsBeyond (fuel : Nat) : Prop where
  value {room : Nat} {t : Text} {limit : Limit} (ht : IsChars t)
    (h : readValue room fuel t = .error (.beyond limit)) : Exceeds room t limit
  items {room : Nat} {t : Text} {limit : Limit} (ht : IsChars t)
    (h : readItems room fuel t = .error (.beyond limit)) : Exceeds room t limit
  members {room : Nat} {t : Text} {limit : Limit} (ht : IsChars t)
    (h : readMembers room fuel t = .error (.beyond limit)) : Exceeds room t limit

theorem readValue_error {fuel : Nat} (ih : StopsBeyond fuel) (ht : IsChars t)
    (h : readValue room (fuel + 1) t = .error (.beyond limit)) : Exceeds room t limit := by
  rw [readValue.eq_def] at h
  dsimp only at h
  split at h
  · obtain failed | ⟨_, -, failed⟩ := bind_error h
    · exact absurd failed readText_error
    · cases failed
  · rename_i inner
    split at h
    · obtain rfl := ReadFault.beyond.inj (Except.error.inj h)
      exact List.countP_pos_iff.mpr ⟨_, List.mem_cons_self, rfl⟩
    split at h
    · cases h
    · have inside := skipGap_suffix inner
      obtain failed | ⟨_, -, failed⟩ := bind_error h
      · have solid := ht.of_suffix (inside.trans (List.suffix_cons _ _))
        exact (ih.items solid failed).enclosed rfl inside
      · cases failed
  · rename_i inner
    split at h
    · obtain rfl := ReadFault.beyond.inj (Except.error.inj h)
      exact List.countP_pos_iff.mpr ⟨_, List.mem_cons_self, rfl⟩
    split at h
    · cases h
    · have inside := skipGap_suffix inner
      obtain failed | ⟨_, -, failed⟩ := bind_error h
      · exact (ih.members (ht.of_suffix (inside.trans (List.suffix_cons _ _))) failed).enclosed rfl
          inside
      · cases failed
  · exact readScalar_error h

theorem readItems_error {fuel : Nat} (ih : StopsBeyond fuel) (ht : IsChars t)
    (h : readItems room (fuel + 1) t = .error (.beyond limit)) : Exceeds room t limit := by
  rw [readItems] at h
  obtain failed | ⟨⟨item, after⟩, hv, h⟩ := bind_error h
  · exact ih.value ht failed
  · have left := ((readsRegular fuel).value ht hv).2
    dsimp only at h
    split at h
    · rename_i more heq
      have next := (skipGap_suffix more).trans ((skipGap_suffix_of_eq heq).trans left)
      obtain failed | ⟨_, -, failed⟩ := bind_error h
      · exact (ih.items (ht.of_suffix next) failed).of_suffix next
      · cases failed
    · cases h
    · cases h

theorem readMembers_error {fuel : Nat} (ih : StopsBeyond fuel) (ht : IsChars t)
    (h : readMembers room (fuel + 1) t = .error (.beyond limit)) : Exceeds room t limit := by
  rw [readMembers] at h
  obtain failed | ⟨⟨name, named⟩, hn, h⟩ := bind_error h
  · exact absurd failed readName_error
  · have front := (readName_spec ht hn).2
    obtain failed | ⟨⟨value, after⟩, hv, h⟩ := bind_error h
    · exact (ih.value (ht.of_suffix front) failed).of_suffix front
    · have left := ((readsRegular fuel).value (ht.of_suffix front) hv).2.trans front
      dsimp only at h
      split at h
      · rename_i more heq
        have next := (skipGap_suffix more).trans ((skipGap_suffix_of_eq heq).trans left)
        obtain failed | ⟨_, -, failed⟩ := bind_error h
        · exact (ih.members (ht.of_suffix next) failed).of_suffix next
        · cases failed
      · cases h
      · cases h

theorem stopsBeyond (fuel : Nat) : StopsBeyond fuel := by
  induction fuel with
  | zero =>
    constructor
    · intro room t limit _ h
      rw [readValue] at h
      cases h
    · intro room t limit _ h
      rw [readItems] at h
      cases h
    · intro room t limit _ h
      rw [readMembers] at h
      cases h
  | succ fuel ih => exact ⟨readValue_error ih, readItems_error ih, readMembers_error ih⟩

/-- A document is only refused for a limit that it goes beyond. -/
theorem exceeds_of_parse (ht : IsChars t) (h : parseWithin room t = .error (.beyond limit)) :
    Exceeds room t limit := by
  rw [parseWithin] at h
  obtain failed | ⟨⟨value, rest⟩, -, failed⟩ := bind_error h
  · have inside := skipGap_suffix t
    exact ((stopsBeyond _).value (ht.of_suffix inside) failed).of_suffix inside
  · dsimp only at failed
    split_ifs at failed <;> cases failed

/-- That more than so much fuel changes nothing, where there are two units for each code point. -/
structure Suffices (fuel : Nat) : Prop where
  value {room : Nat} {t : Text} (ht : IsChars t) (enough : 2 * t.length < fuel) :
    readValue room (fuel + 1) t = readValue room fuel t
  items {room : Nat} {t : Text} (ht : IsChars t) (enough : 2 * t.length + 1 < fuel) :
    readItems room (fuel + 1) t = readItems room fuel t
  members {room : Nat} {t : Text} (ht : IsChars t) (enough : 2 * t.length + 1 < fuel) :
    readMembers room (fuel + 1) t = readMembers room fuel t

/-- Two sequences with the same first part agree if what follows does. -/
theorem bind_congr_ok {α β : Type} {x : Outcome α} {f g : α → Outcome β}
    (h : ∀ a, x = .ok a → f a = g a) : x >>= f = x >>= g := by
  cases x with
  | error fault => rfl
  | ok a => exact h a rfl

theorem readValue_suffices {fuel : Nat} (ih : Suffices fuel) (ht : IsChars t)
    (enough : 2 * t.length < fuel + 1) :
    readValue room (fuel + 2) t = readValue room (fuel + 1) t := by
  rw [readValue.eq_def, readValue.eq_def]
  dsimp only
  split
  · rfl
  · rename_i inner
    have chars := ht.of_suffix ((skipGap_suffix inner).trans (List.suffix_cons _ _))
    have less := (skipGap_suffix inner).length_le
    rw [List.length_cons] at enough
    split
    · rfl
    split
    · rfl
    · rw [ih.items chars (by omega)]
  · rename_i inner
    have chars := ht.of_suffix ((skipGap_suffix inner).trans (List.suffix_cons _ _))
    have less := (skipGap_suffix inner).length_le
    rw [List.length_cons] at enough
    split
    · rfl
    split
    · rfl
    · rw [ih.members chars (by omega)]
  · rfl

theorem readItems_suffices {fuel : Nat} (ih : Suffices fuel) (ht : IsChars t)
    (enough : 2 * t.length + 1 < fuel + 1) :
    readItems room (fuel + 2) t = readItems room (fuel + 1) t := by
  rw [readItems, readItems, ih.value ht (by omega)]
  refine bind_congr_ok fun read hv => ?_
  obtain ⟨item, after⟩ := read
  have left := ((readsRegular fuel).value ht hv).2
  dsimp only
  split
  · rename_i more heq
    have behind := skipGap_suffix_of_eq heq
    have next := (skipGap_suffix more).trans (behind.trans left)
    have less := (skipGap_suffix more).length_le
    have comma := (skipGap_suffix after).length_le
    rw [heq, List.length_cons] at comma
    have short := left.length_le
    rw [ih.items (ht.of_suffix next) (by omega)]
  · rfl
  · rfl

theorem readMembers_suffices {fuel : Nat} (ih : Suffices fuel) (ht : IsChars t)
    (enough : 2 * t.length + 1 < fuel + 1) :
    readMembers room (fuel + 2) t = readMembers room (fuel + 1) t := by
  rw [readMembers, readMembers]
  refine bind_congr_ok fun read hn => ?_
  obtain ⟨name, named⟩ := read
  have front := (readName_spec ht hn).2
  have shorter := front.length_le
  dsimp only
  rw [ih.value (ht.of_suffix front) (by omega)]
  refine bind_congr_ok fun read hv => ?_
  obtain ⟨value, after⟩ := read
  have left := ((readsRegular fuel).value (ht.of_suffix front) hv).2.trans front
  dsimp only
  split
  · rename_i more heq
    have next := (skipGap_suffix more).trans ((skipGap_suffix_of_eq heq).trans left)
    have less := (skipGap_suffix more).length_le
    have comma := (skipGap_suffix after).length_le
    rw [heq, List.length_cons] at comma
    have short := left.length_le
    rw [ih.members (ht.of_suffix next) (by omega)]
  · rfl
  · rfl

theorem enoughFuel (fuel : Nat) : Suffices fuel := by
  induction fuel with
  | zero => constructor <;> intro _ _ _ enough <;> omega
  | succ fuel ih =>
    exact ⟨readValue_suffices ih, readItems_suffices ih, readMembers_suffices ih⟩

/-- Reading does not run out of fuel: with more of it than a document is given, the result is the
same. -/
theorem readValue_of_le {fuel : Nat} (ht : IsChars t) (enough : 2 * t.length < fuel) :
    readValue room fuel t = readValue room (2 * t.length + 1) t := by
  induction fuel, enough using Nat.le_induction with
  | base => rfl
  | succ fuel enough ih => exact ((enoughFuel fuel).value ht enough).trans ih

/-- That a result is this one, or that there was no room to come to it. -/
def Narrows {α : Type} (narrow wide : Outcome α) : Prop :=
  narrow = wide ∨ ∃ nesting, narrow = tooDeep nesting

theorem Narrows.bind {α β : Type} {narrow wide : Outcome α} {f g : α → Outcome β}
    (h : Narrows narrow wide) (next : ∀ a, Narrows (f a) (g a)) :
    Narrows (narrow >>= f) (wide >>= g) := by
  rcases h with rfl | ⟨nesting, rfl⟩
  · cases narrow with
    | error fault => exact .inl rfl
    | ok a => exact next a
  · exact .inr ⟨nesting, rfl⟩

/-- With less room the result of reading is the same or there are too many levels. -/
structure ReadsNarrower (fuel : Nat) : Prop where
  value {room wide : Nat} (le : room ≤ wide) (t : Text) :
    Narrows (readValue room fuel t) (readValue wide fuel t)
  items {room wide : Nat} (le : room ≤ wide) (t : Text) :
    Narrows (readItems room fuel t) (readItems wide fuel t)
  members {room wide : Nat} (le : room ≤ wide) (t : Text) :
    Narrows (readMembers room fuel t) (readMembers wide fuel t)

theorem readValue_narrows {fuel wide : Nat} (ih : ReadsNarrower fuel) (le : room ≤ wide)
    (t : Text) :
    Narrows (readValue room (fuel + 1) t) (readValue wide (fuel + 1) t) := by
  cases room with
  | zero =>
    rw [readValue.eq_def, readValue.eq_def]
    dsimp only
    split
    · exact .inl rfl
    · exact .inr ⟨.array, rfl⟩
    · exact .inr ⟨.object, rfl⟩
    · exact .inl rfl
  | succ room =>
    obtain ⟨wide, rfl⟩ : ∃ inner, wide = inner + 1 := ⟨wide - 1, by omega⟩
    have inner : room ≤ wide := by omega
    rw [readValue.eq_def, readValue.eq_def]
    dsimp only
    split
    · exact .inl rfl
    · split
      · exact .inl rfl
      · exact (ih.items inner _).bind fun _ => .inl rfl
    · split
      · exact .inl rfl
      · exact (ih.members inner _).bind fun _ => .inl rfl
    · exact .inl rfl

theorem readItems_narrows {fuel wide : Nat} (ih : ReadsNarrower fuel) (le : room ≤ wide)
    (t : Text) :
    Narrows (readItems room (fuel + 1) t) (readItems wide (fuel + 1) t) := by
  rw [readItems, readItems]
  refine (ih.value le t).bind fun found => ?_
  dsimp only
  split
  · exact (ih.items le _).bind fun _ => .inl rfl
  · exact .inl rfl
  · exact .inl rfl

theorem readMembers_narrows {fuel wide : Nat} (ih : ReadsNarrower fuel) (le : room ≤ wide)
    (t : Text) : Narrows (readMembers room (fuel + 1) t) (readMembers wide (fuel + 1) t) := by
  rw [readMembers, readMembers]
  refine Narrows.bind (.inl rfl) fun named => (ih.value le named.2).bind fun found => ?_
  dsimp only
  split
  · exact (ih.members le _).bind fun _ => .inl rfl
  · exact .inl rfl
  · exact .inl rfl

theorem readsNarrower (fuel : Nat) : ReadsNarrower fuel := by
  induction fuel with
  | zero =>
    constructor <;> intro room wide _ t <;> left
    · rw [readValue, readValue]
    · rw [readItems, readItems]
    · rw [readMembers, readMembers]
  | succ fuel ih => exact ⟨readValue_narrows ih, readItems_narrows ih, readMembers_narrows ih⟩

theorem parseWithin_narrows {wide : Nat} (le : room ≤ wide) (t : Text) :
    Narrows (parseWithin room t) (parseWithin wide t) :=
  ((readsNarrower _).value le (skipGap t)).bind fun _ => .inl rfl

/-- A printed document that comes back as it was is refused where there is no room for it. -/
theorem parseWithin_printAt_of_not_fits {v : Json} {wide : Nat} (plain : v.isPlain = true)
    (fits : v.fits wide = true) (deep : v.fits room = false) : ∃ nesting,
      parseWithin room (Text.ofChars (printAt 0 v ++ ['\n'])) =
        .error (.beyond (.levels nesting)) := by
  have regular : v.IsRegular wide := ⟨plain, fits⟩
  have le : room ≤ wide := by
    by_contra more
    rw [fits_of_le (by omega) fits] at deep
    cases deep
  have read := parseWithin_printAt v regular.canonical fits
  rw [regular.reread_eq] at read
  obtain same | ⟨nesting, stopped⟩ := parseWithin_narrows le (Text.ofChars (printAt 0 v ++ ['\n']))
  · have narrow := (isRegular_of_parse (isChars_ofChars _) (same.trans read)).fits
    rw [deep] at narrow
    cases narrow
  · exact ⟨nesting, stopped⟩

/-- A document that is nothing but a long integer is refused so. -/
theorem parseWithin_long (room : Nat) {c : Char} {cs : List Char}
    (digits : ∀ d ∈ c :: cs, d.isDigit = true)
    (lead : c ≠ '0') (long : 4300 < (c :: cs).length) : parseWithin room (Text.ofChars (c :: cs)) =
      .error (.beyond (.digits (some (c :: cs).length))) := by
  have digit := digits c List.mem_cons_self
  have front : Text.ofChars (c :: cs) = .char c :: Text.ofChars cs := rfl
  have noGap : skipGap (Text.ofChars (c :: cs)) = Text.ofChars (c :: cs) :=
    skipGap_cons _ _ (isGap_of_begins_number (.inl digit))
  have number : readUnsigned false (Text.ofChars (c :: cs)) = readRest false (c :: cs) [] := by
    have stops : StopsDigits [] := nofun
    have read := readUnsigned_eq false digits (.inr ⟨c, cs, rfl, lead⟩) stops
    rwa [List.append_nil] at read
  have refused : readRest false (c :: cs) [] =
      .error (.beyond (.digits (some (c :: cs).length))) := by
    rw [readRest]
    exact if_pos long
  have scalar : readScalar (Text.ofChars (c :: cs)) =
      .error (.beyond (.digits (some (c :: cs).length))) := by
    rw [← refused, ← number, readScalar]
    · rw [front, readWord?_digit c digit]
    · intro more heq
      rw [Point.char.inj (List.cons.inj heq).1] at digit
      exact absurd digit (by decide)
  have other : c ≠ '\x22' ∧ c ≠ '[' ∧ c ≠ '\x7b' :=
    ⟨ne_of_begins_number (.inl digit) (by decide), ne_of_begins_number (.inl digit) (by decide),
      ne_of_begins_number (.inl digit) (by decide)⟩
  rw [parseWithin, noGap, front, readValue_scalar _ _ c _ other, ← front, scalar]
  rfl

/-- A text of nothing but more opening brackets than there is room for has too many levels. -/
theorem readValue_brackets {count fuel : Nat} (deep : room < count) (enough : 2 * count < fuel) :
    readValue room fuel (List.replicate count (.char '[')) = tooDeep .array := by
  induction count generalizing room fuel with
  | zero => omega
  | succ count ih =>
    obtain ⟨fuel, rfl⟩ : ∃ less, fuel = less + 2 := ⟨fuel - 2, by omega⟩
    cases room with
    | zero => rw [List.replicate_succ, readValue]
    | succ room =>
      obtain ⟨more, rfl⟩ : ∃ more, count = more + 1 := ⟨count - 1, by omega⟩
      have inside : readValue room fuel (List.replicate (more + 1) (.char '[')) =
          tooDeep .array := ih (by omega) (by omega)
      have noGap : skipGap (List.replicate (more + 1) (.char '[')) =
          List.replicate (more + 1) (.char '[') := skipGap_cons _ _ (by decide)
      rw [List.replicate_succ, readValue]
      dsimp only
      rw [noGap]
      have stopped : readItems room (fuel + 1) (List.replicate (more + 1) (.char '[')) =
          tooDeep .array := by
        rw [readItems, inside]
        rfl
      split
      · rename_i closing
        exact absurd (List.cons.inj closing).1 (by decide)
      · rw [stopped]
        rfl
theorem parseWithin_brackets {count : Nat} (deep : room < count) :
    parseWithin room (Text.ofChars (List.replicate count '[')) =
      .error (.beyond (.levels .array)) := by
  have same : Text.ofChars (List.replicate count '[') = List.replicate count (.char '[') :=
    List.map_replicate
  have noGap : skipGap (List.replicate count (.char '[')) = List.replicate count (.char '[') := by
    obtain ⟨more, rfl⟩ : ∃ more, count = more + 1 := ⟨count - 1, by omega⟩
    exact skipGap_cons _ _ (by decide)
  rw [parseWithin, same, noGap, List.length_replicate,
    readValue_brackets deep (Nat.lt_succ_self _)]
  rfl

end SessionKeeper.Json

namespace SessionKeeper.Record

theorem entriesOf_brackets [Runtime] {count : Nat} (deep : Runtime.reads + 1 < count) :
    entriesOf (Utf8.encodeChars (List.replicate count '[')) = .error (.levels .array) := by
  rw [entriesOf, Utf8.decode_encodeChars]
  simp only [Json.parse, Json.parseWithin_brackets deep]

/-- The printed form of members that come back as they were is refused where there is no room for
them. -/
theorem entriesOf_octetsIn_of_not_fits [Runtime] {entries : Assoc Text Json} {wide : Nat}
    (plain : (Json.obj entries).isPlain = true) (fits : (Json.obj entries).fits wide = true)
    (deep : (Json.obj entries).fits (Runtime.reads + 1) = false) :
    ∃ nesting, entriesOf (octetsIn (.obj entries)) = .error (.levels nesting) := by
  obtain ⟨nesting, stopped⟩ := Json.parseWithin_printAt_of_not_fits plain fits deep
  refine ⟨nesting, ?_⟩
  rw [octetsIn, entriesOf, Utf8.decode_encodeChars]
  simp only [Json.parse, stopped]

end SessionKeeper.Record
