import SessionKeeper.Proofs.Json.Settled

/-!
# What is read from documents

Whatever is read from a text of characters is plain and fits: escapes that spell a pair of
surrogates were joined, a repeated member was merged, floating point numbers were rounded, and
neither longer integers than can be printed nor more levels than there is room for are read. So
what was read once comes back unchanged however often it is written and read again.
-/
namespace SessionKeeper.Json

/-- That a text holds characters only. -/
def IsChars (t : Text) : Prop := ∀ p ∈ t, ∃ c, p = .char c

theorem IsChars.of_suffix {t rest : Text} (h : IsChars t) (hs : rest <:+ t) : IsChars rest :=
  fun p hp => h p (hs.subset hp)

theorem isChars_ofChars (cs : List Char) : IsChars (Text.ofChars cs) := by
  intro p hp
  obtain ⟨c, -, rfl⟩ := List.mem_map.mp hp
  exact ⟨c, rfl⟩

/-- That a value comes back as it is where there is room for so many levels. -/
structure IsRegular (room : Nat) (v : Json) : Prop where
  plain : v.isPlain = true
  fits : v.fits room = true

variable {room : Nat}

theorem IsRegular.of_le {v : Json} {wide : Nat} (h : v.IsRegular room) (le : room ≤ wide) :
    v.IsRegular wide :=
  ⟨h.plain, fits_of_le le h.fits⟩

theorem IsRegular.roomy [Runtime] {v : Json} (h : v.IsRegular room) (few : room ≤ 8) :
    v.IsRegular Runtime.reads := ⟨h.plain, fits_roomy h.fits few⟩

theorem isCanonical_arr (items : List Json) :
    (Json.arr items).isCanonical = true ↔ ∀ v ∈ items, v.isCanonical = true := by
  show areCanonical items = true ↔ _
  induction items with
  | nil => simp [areCanonical]
  | cons item rest ih => simp [areCanonical, ih]

theorem isRegular_arr {items : List Json} (h : ∀ v ∈ items, v.IsRegular room) :
    (Json.arr items).IsRegular (room + 1) := by
  refine ⟨?_, (fits_arr items).mpr fun v hv => (h v hv).fits⟩
  have parts (v : Json) (hv : v ∈ items) := (h v hv).plain
  simp only [isPlain, Bool.and_eq_true] at parts ⊢
  refine ⟨?_, (isCanonical_arr items).mpr fun v hv => (parts v hv).2⟩
  rw [isSettled, areSettled_iff]
  exact fun v hv => (parts v hv).1

theorem isRegular_obj (members : Assoc Text Json) : (Json.obj members).IsRegular (room + 1) ↔
    members.keys.Nodup ∧ ∀ m ∈ members, m.1.IsJoined ∧ m.2.IsRegular room := by
  constructor
  · rintro ⟨plain, fits⟩
    obtain ⟨nodup, parts⟩ := (isPlain_obj members).mp plain
    exact ⟨nodup, fun m hm => ⟨(parts m hm).1, (parts m hm).2, (fits_obj members).mp fits m hm⟩⟩
  · rintro ⟨nodup, parts⟩
    exact ⟨(isPlain_obj members).mpr ⟨nodup, fun m hm => ⟨(parts m hm).1, (parts m hm).2.plain⟩⟩,
      (fits_obj members).mpr fun m hm => (parts m hm).2.fits⟩

theorem IsRegular.put {members : Assoc Text Json} (h : (Json.obj members).IsRegular (room + 1))
    {name : Text} (joined : name.IsJoined) {value : Json} (regular : value.IsRegular room) :
    (Json.obj (members.put name value)).IsRegular (room + 1) := by
  rw [isRegular_obj] at h ⊢
  refine ⟨Assoc.nodup_put h.1 name value, fun m hm => ?_⟩
  rcases Assoc.mem_put h.1 name value m hm with rfl | ⟨hm, -⟩
  · exact ⟨joined, regular⟩
  · exact h.2 m hm

theorem IsRegular.remove {members : Assoc Text Json} (h : (Json.obj members).IsRegular room)
    (name : Text) : (Json.obj (members.remove name)).IsRegular room :=
  ⟨isPlain_remove h.plain name, fits_remove h.fits name⟩

theorem IsRegular.canonical {v : Json} (h : v.IsRegular room) : v.isCanonical = true := by
  have plain := h.plain
  rw [isPlain, Bool.and_eq_true] at plain
  exact plain.2

theorem IsRegular.reread_eq {v : Json} (h : v.IsRegular room) : v.reread = v := by
  have plain := h.plain
  rw [isPlain, Bool.and_eq_true] at plain
  exact reread_of_isSettled v plain.1

theorem isRegular_str {t : Text} (h : t.IsJoined) : (Json.str t).IsRegular room :=
  ⟨by simpa [isPlain, isSettled, isCanonical] using h, fits_str t⟩

theorem IsRegular.putText {members : Assoc Text Json} (h : (Json.obj members).IsRegular room)
    {name : Text} (joined : name.IsJoined) {text : Text} (whole : text.IsJoined) :
    (Json.obj (members.put name (.str text))).IsRegular room := by
  obtain ⟨inner, rfl⟩ := exists_room_of_obj h.fits
  exact h.put joined (isRegular_str whole)

/-- What is put under a joined name is all that changes of members when they are written and read
back. -/
theorem rereadMembers_put {name : Text} (joined : name.IsJoined) (value : Json) :
    ∀ members : Assoc Text Json, (∀ m ∈ members, m.1.IsJoined ∧ m.2.IsRegular room) →
      rereadMembers (members.put name value) = members.put name value.reread := by
  intro members
  induction members with
  | nil =>
    intro _
    show rereadMembers [(name, value)] = _
    rw [rereadMembers, Text.rejoin_of_isJoined joined]
    rfl
  | cons member rest ih =>
    intro hr
    obtain ⟨key, old⟩ := member
    have same : rereadMembers rest = rest := rereadMembers_of_forall fun m hm =>
      ⟨Text.rejoin_of_isJoined (hr m (List.mem_cons_of_mem _ hm)).1,
        (hr m (List.mem_cons_of_mem _ hm)).2.reread_eq⟩
    have first := hr (key, old) List.mem_cons_self
    rw [Assoc.put, Assoc.put]
    split_ifs with hk
    · rw [rereadMembers, Text.rejoin_of_isJoined first.1, same]
    · rw [rereadMembers, Text.rejoin_of_isJoined first.1, first.2.reread_eq,
        ih fun m hm => hr m (List.mem_cons_of_mem _ hm)]

theorem rereadMembers_append (front back : List (Text × Json)) :
    rereadMembers (front ++ back) = rereadMembers front ++ rereadMembers back := by
  induction front with
  | nil => rfl
  | cons member rest ih =>
    obtain ⟨name, value⟩ := member
    rw [List.cons_append, rereadMembers, rereadMembers, ih, List.cons_append]

/-- Any value that is put into a regular object is all that changes when it is read back, under
its name as that is read back. -/
theorem reread_put {members : Assoc Text Json} (h : (Json.obj members).IsRegular (room + 1))
    (name : Text) (value : Json) :
    (Json.obj (members.put name value)).reread = .obj (members.put name.rejoin value.reread) := by
  have parts := (isRegular_obj members).mp h
  by_cases joined : name.IsJoined
  · rw [reread, rereadMembers_put joined value members parts.2, Text.rejoin_of_isJoined joined,
      Assoc.ofPairs_of_nodup]
    exact Assoc.nodup_put parts.1 name _
  · -- No name of a regular object is like that one, so it comes last.
    have fresh : name ∉ members.keys := by
      intro hm
      obtain ⟨m, there, rfl⟩ := List.mem_map.mp hm
      exact joined (parts.2 m there).1
    have same : rereadMembers members = members := rereadMembers_of_forall fun m hm =>
      ⟨Text.rejoin_of_isJoined (parts.2 m hm).1, (parts.2 m hm).2.reread_eq⟩
    rw [Assoc.put_of_not_mem _ _ _ fresh, reread, rereadMembers_append, same, Assoc.ofPairs,
      List.foldl_append, ← Assoc.ofPairs, Assoc.ofPairs_of_nodup _ parts.1]
    rfl

theorem isCanonical_put {members : Assoc Text Json} (h : (Json.obj members).isCanonical = true)
    (name : Text) {value : Json} (hv : value.isCanonical = true) :
    (Json.obj (members.put name value)).isCanonical = true := by
  rw [isCanonical_obj] at h ⊢
  intro m hm
  rcases Assoc.eq_or_mem_of_mem_put hm with rfl | hm
  · exact hv
  · exact h m hm

/-- Members that were read one after the other make a regular object. -/
theorem isRegular_ofPairs {pairs : List (Text × Json)}
    (h : ∀ m ∈ pairs, m.1.IsJoined ∧ m.2.IsRegular room) :
    (Json.obj (Assoc.ofPairs pairs)).IsRegular (room + 1) := by
  have fold : ∀ (rest : List (Text × Json)) (front : Assoc Text Json),
      (∀ m ∈ rest, m.1.IsJoined ∧ m.2.IsRegular room) → (Json.obj front).IsRegular (room + 1) →
        (Json.obj (rest.foldl (fun m pair => Assoc.put m pair.1 pair.2) front)).IsRegular
          (room + 1) := by
    intro rest
    induction rest with
    | nil => exact fun _ _ hf => hf
    | cons pair rest ih =>
      intro front hr hf
      have first := hr pair List.mem_cons_self
      exact ih _ (fun m hm => hr m (List.mem_cons_of_mem _ hm)) (hf.put first.1 first.2)
  exact fold pairs [] h ((isRegular_obj []).mpr ⟨List.nodup_nil, nofun⟩)

/-- What the spellings of a string leave, and which points they hold as they stand. -/
theorem spellings_spec {t rest : Text} {s : List Spelling} (h : spellings t = some (s, rest)) :
    rest <:+ t ∧ ∀ p, Spelling.plain p ∈ s → p ∈ t ∨ ∃ c, p = .char c := by
  fun_induction spellings t generalizing s rest with
  | case1 => nomatch h
  | case2 more =>
    obtain ⟨rfl, rfl⟩ := Prod.mk.inj (Option.some.inj h)
    exact ⟨List.suffix_cons _ _, nofun⟩
  | case3 => nomatch h
  | case4 a b c d after n hn hq ih =>
    obtain ⟨⟨s', rest'⟩, hr, heq⟩ := Option.map_eq_some_iff.mp h
    obtain ⟨rfl, rfl⟩ := Prod.mk.inj heq
    obtain ⟨left, plain⟩ := ih hr
    refine ⟨left.trans ⟨[_, _, a, b, c, d], rfl⟩, fun p hp => ?_⟩
    rcases List.mem_cons.mp hp with hne | hp
    · nomatch hne
    · exact (plain p hp).imp_left fun hp => by simp [hp]
  | case5 => nomatch h
  | case6 => nomatch h
  | case7 e more hu c he hq ih =>
    obtain ⟨⟨s', rest'⟩, hr, heq⟩ := Option.map_eq_some_iff.mp h
    obtain ⟨rfl, rfl⟩ := Prod.mk.inj heq
    obtain ⟨left, plain⟩ := ih hr
    refine ⟨left.trans ⟨[_, e], rfl⟩, fun p hp => ?_⟩
    rcases List.mem_cons.mp hp with heq | hp
    · exact Or.inr ⟨c, Spelling.plain.inj heq⟩
    · exact (plain p hp).imp_left fun hp => by simp [hp]
  | case8 => nomatch h
  | case9 => nomatch h
  | case10 q more hq hb hc ih =>
    obtain ⟨⟨s', rest'⟩, hr, heq⟩ := Option.map_eq_some_iff.mp h
    obtain ⟨rfl, rfl⟩ := Prod.mk.inj heq
    obtain ⟨left, plain⟩ := ih hr
    refine ⟨left.trans (List.suffix_cons _ _), fun p hp => ?_⟩
    rcases List.mem_cons.mp hp with heq | hp
    · exact Or.inl (by simp [Spelling.plain.inj heq])
    · exact (plain p hp).imp_left fun hp => by simp [hp]

theorem isLeading_ofCode (n : Nat) : isLeading (Point.ofCode n).code = isLeading n := by
  rw [Point.ofCode]
  split_ifs with h
  · show isLeading (0xD800 + (n - 0xD800)) = isLeading n
    rw [Nat.add_sub_cancel' h.1]
  · rw [isLeading_char, eq_comm, Bool.eq_false_iff, ne_eq, isLeading_iff]
    omega

theorem isTrailing_ofCode (n : Nat) : isTrailing (Point.ofCode n).code = isTrailing n := by
  rw [Point.ofCode]
  split_ifs with h
  · show isTrailing (0xD800 + (n - 0xD800)) = isTrailing n
    rw [Nat.add_sub_cancel' h.1]
  · rw [Text.isTrailing_char, eq_comm, Bool.eq_false_iff, ne_eq, isTrailing_iff]
    omega

theorem isTrailing_of_joinSpellings {m : Nat} {rest : List Spelling}
    (h : (joinSpellings (.escaped m :: rest)).startsTrailing = true) : isTrailing m = true := by
  have single {t : Text} (ht : Text.startsTrailing (Point.ofCode m :: t) = true) :
      isTrailing m = true := by
    rwa [Text.startsTrailing, isTrailing_ofCode] at ht
  rcases rest with _ | ⟨p | k, more⟩
  · exact single h
  · exact single h
  · rw [joinSpellings] at h
    split_ifs at h
    · obtain ⟨c, hc⟩ := Text.exists_joinPair_eq_char m k
      rw [hc, Text.startsTrailing, Text.isTrailing_char] at h
      cases h
    · exact single h

/-- Spellings whose plain points are characters stand for joined text. -/
theorem isJoined_joinSpellings {s : List Spelling} (h : ∀ p, Spelling.plain p ∈ s → ∃ c, p = .char c) :
    (joinSpellings s).IsJoined := by
  fun_induction joinSpellings s with
  | case1 => exact List.isChain_nil
  | case2 p rest ih =>
    obtain ⟨c, rfl⟩ := h p List.mem_cons_self
    refine Text.isJoined_cons ?_ (ih fun p hp => h p (List.mem_cons_of_mem _ hp))
    rw [isLeading_char, Bool.false_and]
  | case3 n => exact List.isChain_singleton _
  | case4 n p rest ih =>
    obtain ⟨c, rfl⟩ := h p (by simp)
    refine Text.isJoined_cons ?_ (Text.isJoined_cons ?_ (ih fun p hp => h p (by simp [hp])))
    · rw [Text.startsTrailing, Text.isTrailing_char, Bool.and_false]
    · rw [isLeading_char, Bool.false_and]
  | case5 n m rest pair ih =>
    obtain ⟨c, hc⟩ := Text.exists_joinPair_eq_char n m
    refine Text.isJoined_cons ?_ (ih fun p hp => h p (by simp [hp]))
    rw [hc, isLeading_char, Bool.false_and]
  | case6 n m rest pair ih =>
    refine Text.isJoined_cons ?_ (ih fun p hp => h p (List.mem_cons_of_mem _ hp))
    rw [isLeading_ofCode, Bool.eq_false_iff]
    intro both
    rw [Bool.and_eq_true] at both
    exact pair (by rw [both.1, isTrailing_of_joinSpellings both.2]; rfl)

theorem readText_spec {t rest text : Text} (ht : IsChars t) (h : readText t = .ok (text, rest)) :
    text.IsJoined ∧ rest <:+ t := by
  rw [readText] at h
  cases hs : spellings t with
  | none =>
    rw [hs] at h
    cases h
  | some found =>
    obtain ⟨s, left⟩ := found
    rw [hs] at h
    obtain ⟨rfl, rfl⟩ := Prod.mk.inj (Except.ok.inj h)
    obtain ⟨suffix, plain⟩ := spellings_spec hs
    exact ⟨isJoined_joinSpellings fun p hp => (plain p hp).elim (ht p) id, suffix⟩

theorem skipGap_suffix (t : Text) : skipGap t <:+ t := List.dropWhile_suffix _

theorem takeDigits_suffix (t : Text) : (takeDigits t).2 <:+ t := List.dropWhile_suffix _

theorem takeFraction_suffix (t : Text) : (takeFraction t).2 <:+ t := by
  rw [takeFraction.eq_def]
  split
  · rename_i rest
    dsimp only
    split_ifs
    · exact List.suffix_refl _
    · exact (takeDigits_suffix rest).trans (List.suffix_cons _ _)
  · exact List.suffix_refl _

theorem takeExponent_suffix (t : Text) : (takeExponent t).2 <:+ t := by
  rw [takeExponent.eq_def]
  split
  · rename_i c rest
    split_ifs with letter
    · split
      rename_i negative body sign
      have signed : body <:+ rest := by
        split at sign
        · exact (Prod.mk.inj sign).2 ▸ List.suffix_cons _ _
        · exact (Prod.mk.inj sign).2 ▸ List.suffix_cons _ _
        · exact (Prod.mk.inj sign).2 ▸ List.suffix_refl _
      dsimp only
      split_ifs
      · exact List.suffix_refl _
      · exact (List.IsSuffix.trans (takeDigits_suffix body) signed).trans (List.suffix_cons _ _)
      · exact (List.IsSuffix.trans (takeDigits_suffix body) signed).trans (List.suffix_cons _ _)
    · exact List.suffix_refl _
  · exact List.suffix_refl _

theorem isDigit_takeDigits (t : Text) : ∀ c ∈ (takeDigits t).1, c.isDigit = true := by
  intro c hc
  obtain ⟨p, hp, heq⟩ := List.mem_filterMap.mp hc
  have hd := List.all_eq_true.mp List.all_takeWhile p hp
  cases p with
  | char d => exact Option.some.inj heq ▸ hd
  | surrogate index => nomatch heq

/-- Digits spell a number below the power of ten that follows them. -/
theorem ofDigits_lt_pow {ds : List Char} (hd : ∀ c ∈ ds, c.isDigit = true) {n : Nat}
    (short : ds.length ≤ n) : Numeral.ofDigits ds < Nat.pow 10 n := by
  refine lt_of_lt_of_le (?_ : Numeral.ofDigits ds < 10 ^ ds.length)
    (Nat.pow_le_pow_right (by decide) short)
  clear short
  induction ds with
  | nil => exact Nat.one_pos
  | cons c cs ih =>
    have rest := ih fun d h => hd d (List.mem_cons_of_mem _ h)
    have digit : c.toNat - 48 ≤ 9 := by
      have h := hd c List.mem_cons_self
      rw [Char.isDigit, Bool.and_eq_true, decide_eq_true_iff, decide_eq_true_iff] at h
      have top : c.toNat ≤ 57 := h.2
      omega
    have value : Numeral.ofDigits (c :: cs) =
        (c.toNat - 48) * 10 ^ cs.length + Numeral.ofDigits cs := by
      refine (Numeral.ofDigits_append [c] cs).trans ?_
      rw [show Numeral.ofDigits [c] = c.toNat - 48 by simp [Numeral.ofDigits]]
    rw [value, List.length_cons, Nat.pow_succ]
    have := Nat.mul_le_mul_right (10 ^ cs.length) digit
    omega

/-- An integer that is not too long to be read is not too long to be printed. -/
theorem ofDigits_lt_digitLimit {ds : List Char} (hd : ∀ c ∈ ds, c.isDigit = true)
    (short : ds.length ≤ 4300) : Numeral.ofDigits ds < digitLimit := by
  delta digitLimit
  generalize 4300 = n at short ⊢
  exact ofDigits_lt_pow hd short

theorem isRegular_int {n : Int} (h : n.natAbs < digitLimit) : (Json.int n).IsRegular room :=
  ⟨rfl, fits_int.mpr h⟩

theorem isRegular_float {x : Double} (h : x.IsCanonical) : (Json.float x).IsRegular room :=
  ⟨by simpa only [isPlain, isSettled, isCanonical, Bool.true_and, decide_eq_true_eq] using h,
    fits_float x⟩

/-- Reading what follows the first digits of a number. -/
theorem readRest_spec {negative : Bool} {whole : List Char} {t rest : Text} {v : Json}
    (hw : ∀ c ∈ whole, c.isDigit = true) (h : readRest negative whole t = .ok (v, rest)) :
    v.IsRegular room ∧ rest <:+ t := by
  have exponent := takeExponent_suffix (takeFraction t).2
  have left : (takeExponent (takeFraction t).2).2 <:+ t :=
    List.IsSuffix.trans exponent (takeFraction_suffix t)
  rw [readRest] at h
  dsimp only at h
  split_ifs at h with empty plain long
  · cases h
  · obtain ⟨rfl, rfl⟩ := Prod.mk.inj (Except.ok.inj h)
    have small := ofDigits_lt_digitLimit hw (by omega)
    exact ⟨isRegular_int (by rwa [Int.natAbs_neg, Int.natAbs_natCast]), left⟩
  · obtain ⟨rfl, rfl⟩ := Prod.mk.inj (Except.ok.inj h)
    have small := ofDigits_lt_digitLimit hw (by omega)
    exact ⟨isRegular_int (by rwa [Int.natAbs_natCast]), left⟩
  · obtain ⟨rfl, rfl⟩ := Prod.mk.inj (Except.ok.inj h)
    exact ⟨isRegular_float (Double.isCanonical_ofDecimal _ _ _), left⟩

theorem readUnsigned_spec {negative : Bool} {t rest : Text} {v : Json}
    (h : readUnsigned negative t = .ok (v, rest)) : v.IsRegular room ∧ rest <:+ t := by
  rw [readUnsigned.eq_def] at h
  split at h
  rename_i whole more heq
  split at heq
  · obtain ⟨rfl, rfl⟩ := Prod.mk.inj heq
    obtain ⟨regular, left⟩ := readRest_spec (List.forall_mem_singleton.mpr rfl) h
    exact ⟨regular, left.trans (List.suffix_cons _ _)⟩
  · have digits := isDigit_takeDigits t
    have suffix := takeDigits_suffix t
    rw [heq] at digits suffix
    obtain ⟨regular, left⟩ := readRest_spec digits h
    exact ⟨regular, List.IsSuffix.trans left suffix⟩

theorem readScalar_spec {t rest : Text} {v : Json} (h : readScalar t = .ok (v, rest)) :
    v.IsRegular room ∧ rest <:+ t := by
  rw [readScalar.eq_def] at h
  split at h
  · rename_i result heq
    obtain rfl := Except.ok.inj h
    obtain ⟨word, hw, hv⟩ := List.exists_of_findSome?_eq_some heq
    dsimp only at hv
    split_ifs at hv
    obtain ⟨rfl, rfl⟩ := Prod.mk.inj (Option.some.inj hv)
    refine ⟨?_, List.drop_suffix _ _⟩
    simp only [wordValues, List.mem_cons, List.not_mem_nil, or_false] at hw
    rcases hw with rfl | rfl | rfl | rfl | rfl | rfl <;> exact ⟨rfl, by simp⟩
  · split at h
    · obtain ⟨regular, left⟩ := readUnsigned_spec h
      exact ⟨regular, left.trans (List.suffix_cons _ _)⟩
    · exact readUnsigned_spec h

theorem readName_spec {t rest name : Text} (ht : IsChars t) (h : readName t = .ok (name, rest)) :
    name.IsJoined ∧ rest <:+ t := by
  rw [readName.eq_def] at h
  split at h
  · rename_i more
    cases hr : readText more with
    | error fault =>
      rw [hr] at h
      nomatch h
    | ok found =>
      obtain ⟨text, after⟩ := found
      rw [hr] at h
      obtain ⟨joined, left⟩ := readText_spec (ht.of_suffix (List.suffix_cons _ _)) hr
      simp only [bind, Except.bind] at h
      split at h
      · rename_i last heq
        obtain ⟨rfl, rfl⟩ := Prod.mk.inj (Except.ok.inj h)
        have colon := skipGap_suffix after
        rw [heq] at colon
        refine ⟨joined, (List.IsSuffix.trans ?_ left).trans (List.suffix_cons _ _)⟩
        exact List.IsSuffix.trans (skipGap_suffix last)
          (List.IsSuffix.trans (List.suffix_cons _ _) colon)
      · nomatch h
  · nomatch h

theorem skipGap_suffix_of_eq {t rest : Text} {p : Point} (h : skipGap t = p :: rest) :
    rest <:+ t :=
  List.IsSuffix.trans (List.suffix_cons _ _) (h ▸ skipGap_suffix t)

theorem bind_ok {α β : Type} {x : Outcome α} {f : α → Outcome β} {b : β}
    (h : (x >>= f) = .ok b) : ∃ a, x = .ok a ∧ f a = .ok b := by
  cases x with
  | error fault => nomatch h
  | ok a => exact ⟨a, rfl, h⟩

/-- What reading with so much fuel gives: regular values under joined names, and a part of the
text. One step of reading a value, an item or a member rests on those with less fuel. -/
structure ReadsRegular (fuel : Nat) : Prop where
  value {room : Nat} {t rest : Text} {v : Json} (ht : IsChars t)
    (h : readValue room fuel t = .ok (v, rest)) : v.IsRegular room ∧ rest <:+ t
  items {room : Nat} {t rest : Text} {vs : List Json} (ht : IsChars t)
    (h : readItems room fuel t = .ok (vs, rest)) : (∀ v ∈ vs, v.IsRegular room) ∧ rest <:+ t
  members {room : Nat} {t rest : Text} {ms : List (Text × Json)} (ht : IsChars t)
    (h : readMembers room fuel t = .ok (ms, rest)) :
    (∀ m ∈ ms, m.1.IsJoined ∧ m.2.IsRegular room) ∧ rest <:+ t

theorem readValue_spec {fuel : Nat} (ih : ReadsRegular fuel) {t rest : Text} {v : Json}
    (ht : IsChars t) (h : readValue room (fuel + 1) t = .ok (v, rest)) :
    v.IsRegular room ∧ rest <:+ t := by
  rw [readValue.eq_def] at h
  dsimp only at h
  split at h
  · rename_i quoted
    obtain ⟨⟨text, left⟩, hr, heq⟩ := bind_ok h
    obtain ⟨rfl, rfl⟩ := Prod.mk.inj (Except.ok.inj heq)
    obtain ⟨joined, suffix⟩ := readText_spec (ht.of_suffix (List.suffix_cons _ _)) hr
    exact ⟨isRegular_str joined, suffix.trans (List.suffix_cons _ _)⟩
  · rename_i inner
    split at h
    · cases h
    split at h
    · rename_i left heq
      obtain ⟨rfl, rfl⟩ := Prod.mk.inj (Except.ok.inj h)
      have left := (skipGap_suffix_of_eq heq).trans (List.suffix_cons (.char '[') _)
      exact ⟨isRegular_arr (List.forall_mem_nil _), left⟩
    · have inside := (skipGap_suffix inner).trans (List.suffix_cons (.char '[') _)
      obtain ⟨⟨items, left⟩, hr, heq⟩ := bind_ok h
      obtain ⟨rfl, rfl⟩ := Prod.mk.inj (Except.ok.inj heq)
      obtain ⟨regular, suffix⟩ := ih.items (ht.of_suffix inside) hr
      exact ⟨isRegular_arr regular, List.IsSuffix.trans suffix inside⟩
  · rename_i inner
    split at h
    · cases h
    split at h
    · rename_i left heq
      obtain ⟨rfl, rfl⟩ := Prod.mk.inj (Except.ok.inj h)
      exact ⟨⟨rfl, rfl⟩, (skipGap_suffix_of_eq heq).trans (List.suffix_cons _ _)⟩
    · have inside := (skipGap_suffix inner).trans (List.suffix_cons (.char '\x7b') _)
      obtain ⟨⟨members, left⟩, hr, heq⟩ := bind_ok h
      obtain ⟨rfl, rfl⟩ := Prod.mk.inj (Except.ok.inj heq)
      obtain ⟨regular, suffix⟩ := ih.members (ht.of_suffix inside) hr
      exact ⟨isRegular_ofPairs regular, List.IsSuffix.trans suffix inside⟩
  · exact readScalar_spec h

theorem readItems_spec {fuel : Nat} (ih : ReadsRegular fuel) {t rest : Text} {vs : List Json}
    (ht : IsChars t) (h : readItems room (fuel + 1) t = .ok (vs, rest)) :
    (∀ v ∈ vs, v.IsRegular room) ∧ rest <:+ t := by
  rw [readItems] at h
  obtain ⟨⟨item, after⟩, hv, h⟩ := bind_ok h
  obtain ⟨regular, suffix⟩ := ih.value ht hv
  dsimp only at h
  split at h
  · rename_i more heq
    have next := List.IsSuffix.trans (skipGap_suffix more)
      (List.IsSuffix.trans (skipGap_suffix_of_eq heq) suffix)
    obtain ⟨⟨items, left⟩, hr, h⟩ := bind_ok h
    obtain ⟨rfl, rfl⟩ := Prod.mk.inj (Except.ok.inj h)
    obtain ⟨others, last⟩ := ih.items (ht.of_suffix next) hr
    exact ⟨List.forall_mem_cons.mpr ⟨regular, others⟩, List.IsSuffix.trans last next⟩
  · rename_i left heq
    obtain ⟨rfl, rfl⟩ := Prod.mk.inj (Except.ok.inj h)
    exact ⟨List.forall_mem_cons.mpr ⟨regular, List.forall_mem_nil _⟩,
      List.IsSuffix.trans (skipGap_suffix_of_eq heq) suffix⟩
  · cases h

theorem readMembers_spec {fuel : Nat} (ih : ReadsRegular fuel) {t rest : Text}
    {ms : List (Text × Json)} (ht : IsChars t)
    (h : readMembers room (fuel + 1) t = .ok (ms, rest)) :
    (∀ m ∈ ms, m.1.IsJoined ∧ m.2.IsRegular room) ∧ rest <:+ t := by
  rw [readMembers] at h
  obtain ⟨⟨name, named⟩, hn, h⟩ := bind_ok h
  obtain ⟨joined, front⟩ := readName_spec ht hn
  obtain ⟨⟨value, after⟩, hv, h⟩ := bind_ok h
  obtain ⟨regular, back⟩ := ih.value (ht.of_suffix front) hv
  have suffix := List.IsSuffix.trans back front
  dsimp only at h
  split at h
  · rename_i more heq
    have next := List.IsSuffix.trans (skipGap_suffix more)
      (List.IsSuffix.trans (skipGap_suffix_of_eq heq) suffix)
    obtain ⟨⟨members, left⟩, hr, h⟩ := bind_ok h
    obtain ⟨rfl, rfl⟩ := Prod.mk.inj (Except.ok.inj h)
    obtain ⟨others, last⟩ := ih.members (ht.of_suffix next) hr
    exact ⟨List.forall_mem_cons.mpr ⟨⟨joined, regular⟩, others⟩, List.IsSuffix.trans last next⟩
  · rename_i left heq
    obtain ⟨rfl, rfl⟩ := Prod.mk.inj (Except.ok.inj h)
    exact ⟨List.forall_mem_cons.mpr ⟨⟨joined, regular⟩, List.forall_mem_nil _⟩,
      List.IsSuffix.trans (skipGap_suffix_of_eq heq) suffix⟩
  · cases h

theorem readsRegular (fuel : Nat) : ReadsRegular fuel := by
  induction fuel with
  | zero =>
    constructor
    · intro room t rest v _ h
      rw [readValue] at h
      cases h
    · intro room t rest vs _ h
      rw [readItems] at h
      cases h
    · intro room t rest ms _ h
      rw [readMembers] at h
      cases h
  | succ fuel ih => exact ⟨readValue_spec ih, readItems_spec ih, readMembers_spec ih⟩

/-- A document of characters holds a regular value. -/
theorem isRegular_of_parse {t : Text} {v : Json} (ht : IsChars t) (h : parseWithin room t = .ok v) :
    v.IsRegular room := by
  rw [parseWithin] at h
  obtain ⟨⟨value, rest⟩, hr, h⟩ := bind_ok h
  dsimp only at h
  split_ifs at h
  obtain rfl := Except.ok.inj h
  exact ((readsRegular _).value (ht.of_suffix (skipGap_suffix t)) hr).1

end SessionKeeper.Json
