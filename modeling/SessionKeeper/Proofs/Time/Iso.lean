import SessionKeeper.Proofs.Text.Utf8
import SessionKeeper.Proofs.Time.Stored
import SessionKeeper.Time.IsoReader

/-!
# ISO text is read back

The ISO text of a moment in universal time has the date in its extended form, a time of
day whose fields have two digits, six digits of fraction or none, and an offset of zero
that is written out. Everything in it is ASCII, so its octets are its characters, and the
reader finds each field where the text has it.
-/
namespace SessionKeeper

namespace Moment

def dateChars (m : Moment) : List Char :=
  paddedChars 4 m.date.year ++ '-' :: (paddedChars 2 m.date.month ++ '-' ::
    paddedChars 2 m.date.day)

/-- The characters of the time of day. -/
def clockChars (m : Moment) : List Char :=
  paddedChars 2 m.hour ++ ':' :: (paddedChars 2 m.minute ++ ':' ::
    (paddedChars 2 m.second ++ m.fractionChars))

theorem minutes_of_day (m : Moment) : (m.hour * 60 + m.minute) / 60 = m.hour ∧
    (m.hour * 60 + m.minute) % 60 = m.minute := by
  have hb : m.minute < 60 := by
    simp only [minute]
    omega
  omega

theorem localText_eq (m : Moment) :
    m.localText = Text.ofChars (m.dateChars ++ 'T' :: m.clockChars) := by
  obtain ⟨hh, hm⟩ := m.minutes_of_day
  simp only [localText, hourMinuteText, padded_eq, hh, hm, dateChars, clockChars, fractionChars]
  split <;> simp [Text.ofChars, Text.ofString]

theorem isoText_of_universal (m : Moment) (h : m.offset = some 0) :
    m.isoText = Text.ofChars (m.dateChars ++ 'T' :: (m.clockChars ++ "+00:00".toList)) := by
  rw [isoText, h]
  simp only [localText_eq]
  simp [Text.ofChars, Text.ofString, signText, hourMinuteText, padded_eq, paddedChars]

theorem isoText_mem_range (m : Moment) : m.isoText ∈ Set.range Text.ofChars := by
  have append {s t : Text} : s ∈ Set.range Text.ofChars → t ∈ Set.range Text.ofChars →
      s ++ t ∈ Set.range Text.ofChars := by
    rintro ⟨cs, rfl⟩ ⟨ds, rfl⟩
    exact ⟨cs ++ ds, List.map_append⟩
  have padded (width n : Nat) : Text.padded width n ∈ Set.range Text.ofChars :=
    ⟨paddedChars width n, (padded_eq width n).symm⟩
  have written (s : String) : Text.ofString s ∈ Set.range Text.ofChars := ⟨s.toList, rfl⟩
  have here : m.localText ∈ Set.range Text.ofChars := ⟨_, m.localText_eq.symm⟩
  rw [isoText]
  split
  · exact here
  · rename_i offset _
    have sign : signText offset ∈ Set.range Text.ofChars := by
      rw [signText]
      split_ifs <;> exact written _
    have minutes := append (append (padded 2 (offset.natAbs / 60000000 / 60)) (written ":"))
      (padded 2 (offset.natAbs / 60000000 % 60))
    refine append (append (append (append here sign) minutes) ?_) ?_
    · split_ifs
      · exact written ""
      · exact append (written ":") (padded 2 _)
    · split_ifs
      · exact written ""
      · exact append (written ".") (padded 6 _)

end Moment

namespace IsoReader

def octet (c : Char) : UInt8 := UInt8.ofNat c.toNat

theorem encodeChars_of_ascii {cs : List Char} (h : ∀ c ∈ cs, c.toNat < 0x80) :
    Utf8.encodeChars cs = cs.map octet := by
  induction cs with
  | nil => rfl
  | cons c cs ih =>
    have hc := h c List.mem_cons_self
    have rest := ih fun d hd => h d (List.mem_cons_of_mem _ hd)
    rw [Utf8.encodeChars, List.flatMap_cons, ← Utf8.encodeChars, rest, Utf8.encodeCode, if_pos hc]
    rfl

theorem digit_bounds {c : Char} (h : c.isDigit = true) : 48 ≤ c.toNat ∧ c.toNat ≤ 57 := by
  rw [Char.isDigit, Bool.and_eq_true, decide_eq_true_iff, decide_eq_true_iff] at h
  exact ⟨h.1, h.2⟩

theorem toNat_octet {c : Char} (h : c.isDigit = true) : (octet c).toNat = c.toNat := by
  have hb := digit_bounds h
  exact Utf8.toNat_ofNat (by omega)

theorem isDigit_octet {c : Char} (h : c.isDigit = true) : isDigit (octet c) = true := by
  have hb := digit_bounds h
  rw [isDigit, Bool.and_eq_true, decide_eq_true_iff, decide_eq_true_iff, UInt8.le_iff_toNat_le,
    UInt8.le_iff_toNat_le, toNat_octet h]
  exact hb

theorem octet_ne {c d : Char} (h : c.isDigit = true) (hd : d.isDigit = false)
    (small : d.toNat < 256) : octet c ≠ octet d := by
  intro heq
  have hn := congrArg UInt8.toNat heq
  rw [toNat_octet h, octet, Utf8.toNat_ofNat small] at hn
  rw [Char.toNat_inj.mp hn, hd] at h
  nomatch h

theorem takeNumber_map (ds : List Char) (hd : ∀ c ∈ ds, c.isDigit = true) (n : Nat)
    (rest : Octets) : takeNumber ds.length n (ds.map octet ++ rest) =
      some (ds.foldl (fun n c => 10 * n + (c.toNat - 48)) n, rest) := by
  induction ds generalizing n with
  | nil => rfl
  | cons d ds ih =>
    have hdigit := hd d List.mem_cons_self
    rw [List.map_cons, List.cons_append, List.length_cons, takeNumber,
      if_pos (isDigit_octet hdigit), ih fun c hc => hd c (List.mem_cons_of_mem _ hc),
      toNat_octet hdigit, List.foldl_cons, Nat.mul_comm]

/-- A field is read back, whatever follows it. -/
theorem takeNumber_padded (width n : Nat) (hw : 0 < width) (hn : n < 10 ^ width)
    (rest : Octets) :
    takeNumber width 0 ((paddedChars width n).map octet ++ rest) = some (n, rest) := by
  have h := takeNumber_map (paddedChars width n) (isDigit_paddedChars width n) 0 rest
  rw [length_paddedChars width n hw hn] at h
  rw [h]
  exact congrArg (fun k => some (k, rest)) (ofDigits_paddedChars width n)

theorem length_dateChars (m : Moment) : m.dateChars.length = 10 := by
  have hy := m.date.year_bounds
  have hm := m.date.month_bounds
  have hd := m.date.day_le
  simp only [Moment.dateChars, List.length_append, List.length_cons,
    length_paddedChars 4 m.date.year (by decide) (by omega),
    length_paddedChars 2 m.date.month (by decide) (by omega),
    length_paddedChars 2 m.date.day (by decide) (by omega)]

/-- The month does not begin like a week. -/
theorem peek_paddedChars (width n : Nat) (hw : 0 < width) (hn : n < 10 ^ width) {d : Char}
    (hd : d.isDigit = false) (small : d.toNat < 256) (rest : Octets) :
    peek ((paddedChars width n).map octet ++ rest) ≠ octet d := by
  have hl := length_paddedChars width n hw hn
  have digits := isDigit_paddedChars width n
  cases hp : paddedChars width n with
  | nil =>
    rw [hp] at hl
    exact absurd hl.symm (Nat.ne_of_gt hw)
  | cons c cs =>
    rw [hp] at digits
    exact octet_ne (digits c List.mem_cons_self) hd small

theorem readDate_dateChars (m : Moment) (rest : Octets) :
    readDate (m.dateChars.map octet ++ rest) 10 = some m.date := by
  have hy := m.date.year_bounds
  have hm := m.date.month_bounds
  have hd := m.date.day_le
  have split : m.dateChars.map octet ++ rest = (paddedChars 4 m.date.year).map octet ++
      45 :: ((paddedChars 2 m.date.month).map octet ++
        45 :: ((paddedChars 2 m.date.day).map octet ++ rest)) := by
    simp only [Moment.dateChars, List.map_append, List.map_cons, List.append_assoc,
      List.cons_append]
    rfl
  have week := peek_paddedChars 2 m.date.month (by decide) (by omega) (d := 'W') (by decide)
    (by decide) (45 :: ((paddedChars 2 m.date.day).map octet ++ rest))
  have hw : octet 'W' = 87 := rfl
  rw [hw] at week
  have peek_cons (b : UInt8) (s : Octets) : peek (b :: s) = b := rfl
  rw [split, readDate]
  simp only [takeNumber_padded 4 m.date.year (by decide) (by omega), Option.bind_eq_bind,
    Option.bind_some, peek_cons, decide_true, if_true, List.drop_succ_cons, List.drop_zero,
    if_neg week, takeNumber_padded 2 m.date.month (by decide) (by omega),
    takeNumber_padded 2 m.date.day (by decide) (by omega), ne_eq, not_true, decide_false,
    Bool.and_false, Bool.false_eq_true, if_false, Date.of?_self]

/-- A field that a colon follows is read, and the next one comes behind the colon. -/
theorem readFields_colon (left : Nat) (colons : Option Bool) (parts : List Nat) (room n : Nat)
    (rest : Octets) (hc : colons.getD true = true) (hn : n < 100) (hroom : 3 < room) :
    readFields (left + 1) colons parts room ((paddedChars 2 n).map octet ++ 58 :: rest) =
      readFields left (some true) (parts ++ [n]) (room - 3) rest := by
  have next : peek ((58 : UInt8) :: rest) = 58 := rfl
  rw [readFields, takeNumber_padded 2 n (by decide) hn]
  simp only [Option.bind_eq_bind, Option.bind_some, next, decide_true, List.drop_succ_cons,
    List.drop_zero, hc, Bool.true_and, if_true, Nat.sub_sub]
  rw [if_neg (by omega)]

theorem readFields_seconds (m : Moment) (parts : List Nat) (rest : Octets)
    (hr : peek rest = 43) :
    readFields 1 (some true) parts (m.fractionChars.length + 2)
      ((paddedChars 2 m.second).map octet ++ (m.fractionChars.map octet ++ rest)) =
        some (.of (parts ++ [m.second]) m.micros false) := by
  have hb : m.second < 60 ∧ m.micros < 1000000 := by
    simp only [Moment.second, Moment.micros]
    omega
  rw [readFields, takeNumber_padded 2 m.second (by decide) (by omega)]
  simp only [Option.bind_eq_bind, Option.bind_some, Nat.add_sub_cancel, Option.getD_some]
  by_cases hz : m.micros = 0
  · have hf : m.fractionChars = [] := by rw [Moment.fractionChars, if_pos hz]
    simp only [hf, hz, List.map_nil, List.nil_append, List.length_nil, hr]
    rfl
  · have hf : m.fractionChars = '.' :: paddedChars 6 m.micros := by
      rw [Moment.fractionChars, if_neg hz]
    have hl := length_paddedChars 6 m.micros (by decide) (by omega)
    have digits := takeNumber_padded 6 m.micros (by decide) (by omega) rest
    have ends : rest.dropWhile isDigit = rest := by
      cases rest with
      | nil => rfl
      | cons b more =>
        have hb : b = 43 := hr
        rw [hb]
        rfl
    have point : peek (octet '.' :: ((paddedChars 6 m.micros).map octet ++ rest)) = 46 := rfl
    simp only [hf, List.map_cons, List.cons_append, List.length_cons, hl, point]
    show readFraction _ 6 _ = _
    rw [readFraction]
    show (takeNumber 6 0 _).bind _ = _
    rw [List.drop_succ_cons, List.drop_zero, digits]
    have whole : Nat.pow 10 (6 - min 6 6) = 1 := by decide
    simp only [Option.bind_some, ends, hr, whole, Nat.mul_one]
    rfl

/-- The time of day is read up to the offset. -/
theorem readFields_clockChars (m : Moment) (rest : Octets) (hr : peek rest = 43) :
    readFields 3 none [] m.clockChars.length (m.clockChars.map octet ++ rest) =
      some ⟨m.hour, m.minute, m.second, m.micros, false⟩ := by
  have ht := m.tick.isLt
  have hb : m.hour < 24 ∧ m.minute < 60 ∧ m.second < 60 := by
    simp only [Moment.hour, Moment.minute, Moment.second]
    omega
  have hlen : m.clockChars.length = m.fractionChars.length + 2 + 3 + 3 := by
    simp only [Moment.clockChars, List.length_append, List.length_cons,
      length_paddedChars 2 m.hour (by decide) (by omega),
      length_paddedChars 2 m.minute (by decide) (by omega),
      length_paddedChars 2 m.second (by decide) (by omega)]
    omega
  have split : m.clockChars.map octet ++ rest = (paddedChars 2 m.hour).map octet ++
      58 :: ((paddedChars 2 m.minute).map octet ++ 58 :: ((paddedChars 2 m.second).map octet ++
        (m.fractionChars.map octet ++ rest))) := by
    simp only [Moment.clockChars, List.map_append, List.map_cons, List.append_assoc,
      List.cons_append]
    rfl
  rw [split, hlen, readFields_colon 2 none [] _ m.hour _ rfl (by omega) (by omega),
    readFields_colon 1 (some true) _ _ m.minute _ rfl (by omega) (by omega), Nat.add_sub_cancel,
    Nat.add_sub_cancel, readFields_seconds m _ rest hr]
  rfl

/-- The characters of a time of day begin no offset. -/
theorem takeWhile_clockChars (m : Moment) (rest : Octets) :
    ((m.clockChars.map octet ++ 43 :: rest).takeWhile fun b => !startsOffset b).length =
      m.clockChars.length := by
  have digit {c : Char} (h : c.isDigit = true) : (!startsOffset (octet c)) = true := by
    have hplus : octet c ≠ 43 := octet_ne (d := '+') h (by decide) (by decide)
    have hminus : octet c ≠ 45 := octet_ne (d := '-') h (by decide) (by decide)
    have hz : octet c ≠ 90 := octet_ne (d := 'Z') h (by decide) (by decide)
    simp [startsOffset, hplus, hminus, hz]
  have padded (width n : Nat) : ∀ b ∈ (paddedChars width n).map octet,
      (!startsOffset b) = true := by
    intro b hb
    obtain ⟨c, hc, rfl⟩ := List.mem_map.mp hb
    exact digit (isDigit_paddedChars width n c hc)
  have all : ∀ b ∈ m.clockChars.map octet, (!startsOffset b) = true := by
    intro b hb
    simp only [Moment.clockChars, List.map_append, List.map_cons, List.mem_append,
      List.mem_cons] at hb
    rcases hb with hb | rfl | hb | rfl | hb | hb
    · exact padded _ _ b hb
    · rfl
    · exact padded _ _ b hb
    · rfl
    · exact padded _ _ b hb
    · rw [Moment.fractionChars] at hb
      split_ifs at hb
      · cases hb
      · rcases List.mem_cons.mp hb with rfl | hb
        · rfl
        · exact padded _ _ b hb
  rw [List.takeWhile_append_of_pos all, List.takeWhile_cons_of_neg (by decide), List.append_nil,
    List.length_map]

/-- The time of day and an offset of zero are read back. -/
theorem readTime_clockChars (m : Moment) :
    readTime (m.clockChars.map octet ++ "+00:00".toList.map octet) = some (m.tick, some 0) := by
  have offset : "+00:00".toList.map octet = [43, 48, 48, 58, 48, 48] := rfl
  have size := takeWhile_clockChars m [48, 48, 58, 48, 48]
  have fields := readFields_clockChars m [43, 48, 48, 58, 48, 48] rfl
  have longer : ¬ m.clockChars.length =
      (m.clockChars.map octet ++ [(43 : UInt8), 48, 48, 58, 48, 48]).length := by
    simp
  have rest : (m.clockChars.map octet ++ [(43 : UInt8), 48, 48, 58, 48, 48]).drop
      m.clockChars.length = [43, 48, 48, 58, 48, 48] :=
    List.drop_left' (List.length_map _)
  have zero : readOffset [43, 48, 48, 58, 48, 48] = some 0 := by decide
  rw [offset, readTime]
  simp only [size, fields, LaxReader.tick?_self, Option.bind_eq_bind, Option.bind_some, longer,
    if_false, rest, zero]
  rfl

theorem octetAt_eq (s : Octets) (position : Nat) :
    octetAt s position = peek (s.drop position) := by
  rw [octetAt, peek, List.getD_eq_getElem?_getD, List.headD_eq_head?_getD, List.head?_drop]

/-- The date of an extended text is separated behind its tenth octet. -/
theorem separatorPosition_dateChars (m : Moment) (rest : Octets) :
    separatorPosition (m.dateChars.map octet ++ rest) = some 10 := by
  have hy := m.date.year_bounds
  have hm := m.date.month_bounds
  have hl : (m.dateChars.map octet ++ rest).length ≠ 7 := by
    rw [List.length_append, List.length_map, length_dateChars]
    omega
  have year := length_paddedChars 4 m.date.year (by decide) (by omega)
  have split : m.dateChars.map octet ++ rest = (paddedChars 4 m.date.year).map octet ++
      45 :: ((paddedChars 2 m.date.month).map octet ++
        45 :: ((paddedChars 2 m.date.day).map octet ++ rest)) := by
    simp only [Moment.dateChars, List.map_append, List.map_cons, List.append_assoc,
      List.cons_append]
    rfl
  have dropped : (m.dateChars.map octet ++ rest).drop 4 =
      45 :: ((paddedChars 2 m.date.month).map octet ++
        45 :: ((paddedChars 2 m.date.day).map octet ++ rest)) := by
    rw [split]
    exact List.drop_left' ((List.length_map _).trans year)
  have hyphen : octetAt (m.dateChars.map octet ++ rest) 4 = 45 := by
    rw [octetAt_eq, dropped]
    rfl
  have week : octetAt (m.dateChars.map octet ++ rest) 5 ≠ 87 := by
    rw [octetAt_eq, show 5 = 4 + 1 from rfl, ← List.drop_drop, dropped]
    exact peek_paddedChars 2 m.date.month (by decide) (by omega) (d := 'W') (by decide)
      (by decide) _
  rw [separatorPosition, if_neg hl, if_pos hyphen, if_neg week]

theorem isAscii_isoChars (m : Moment) :
    ∀ c ∈ m.dateChars ++ 'T' :: (m.clockChars ++ "+00:00".toList), c.toNat < 0x80 := by
  have padded (width n : Nat) : ∀ c ∈ paddedChars width n, c.toNat < 0x80 := by
    intro c hc
    have hb := digit_bounds (isDigit_paddedChars width n c hc)
    omega
  have fraction : ∀ c ∈ m.fractionChars, c.toNat < 0x80 := by
    intro c hc
    rw [Moment.fractionChars] at hc
    split_ifs at hc
    · cases hc
    · rcases List.mem_cons.mp hc with rfl | hc
      · decide
      · exact padded _ _ c hc
  have offset : ∀ c ∈ "+00:00".toList, c.toNat < 0x80 := by simp
  intro c hc
  simp only [Moment.dateChars, Moment.clockChars, List.mem_append, List.mem_cons] at hc
  rcases hc with (hc | rfl | hc | rfl | hc) | rfl | (hc | rfl | hc | rfl | hc | hc) | hc <;>
    first | exact padded _ _ c hc | exact fraction c hc | exact offset c hc | decide

theorem tameSeparator_ofChars (cs : List Char) :
    tameSeparator (Text.ofChars cs) = Text.ofChars cs := by
  simp only [tameSeparator, List.find?, Text.ofChars, List.getElem?_map]
  cases cs[7]? <;> cases cs[8]? <;> cases cs[10]? <;> rfl

theorem read?_isoText (m : Moment) (h : m.offset = some 0) : read? m.isoText = some m := by
  have octets := encodeChars_of_ascii (isAscii_isoChars m)
  simp only [List.map_append, List.map_cons] at octets
  have hT : octet 'T' = 84 := rfl
  have date := length_dateChars m
  have long : ¬ (Text.ofChars (m.dateChars ++ 'T' :: (m.clockChars ++
      "+00:00".toList))).length < 7 := by
    rw [Text.ofChars, List.length_map, List.length_append, date]
    omega
  have behind : ¬ (m.dateChars.map octet ++ octet 'T' :: (m.clockChars.map octet ++
      "+00:00".toList.map octet)).length ≤ 10 := by
    rw [List.length_append, List.length_map, date, List.length_cons]
    omega
  have dropped (rest : Octets) : (m.dateChars.map octet ++ rest).drop 10 = rest :=
    List.drop_left' ((List.length_map _).trans date)
  have separator (rest : Octets) :
      (octet 'T' :: rest).drop (characterSize (peek (octet 'T' :: rest))) = rest := rfl
  rw [Moment.isoText_of_universal m h, read?, if_neg long, tameSeparator_ofChars, Utf8.encode?,
    Text.toChars?_ofChars]
  simp only [Option.map_some, octets, Option.bind_eq_bind, Option.bind_some,
    separatorPosition_dateChars, readDate_dateChars, behind, if_false, dropped, separator,
    readTime_clockChars]
  obtain ⟨date, tick, offset⟩ := m
  obtain rfl : offset = some 0 := h
  rfl

end IsoReader

end SessionKeeper
