import SessionKeeper.Proofs.Lock.Outcome
import SessionKeeper.Proofs.Session.Listed

/-!
# What was decoded is decoded again

Documents are read leniently: a time may be spelled as text with any offset, as a date or as a
number, blanks around ids and names are dropped and members that nobody asks for are passed over.
What is read is in a normal form all the same. A time that was read has an offset of whole minutes,
an id or a name that was read is trimmed and not blank, so that the record made of a session, a
worker or a marker is read as just that, but for the secret, which no record tells.
-/
namespace SessionKeeper

namespace LaxReader

/-- Two digits at the front tell a number below a hundred; this is where offsets get their bounds
from, and all of them are whole minutes. -/
theorem offset?_whole {cs : List Char} {offset : Option Int} (h : offset? cs = some offset) :
    ∀ o, offset = some o → ∃ minutes : Nat, minutes < 1440 ∧
      (o = (minutes : Int) * 60000000 ∨ o = -((minutes : Int) * 60000000)) := by
  intro o ho
  subst ho
  rw [offset?.eq_def] at h
  split at h
  · cases h
  · split_ifs at h
    exact ⟨0, by decide, .inl (Option.some.inj (Option.some.inj h)).symm⟩
  · dsimp only at h
    split_ifs at h with plus minus
    pick_goal 3
    · cases h
    -- with either sign the same two fields follow
    all_goals
      obtain ⟨negative, -, h⟩ := Option.bind_eq_some_iff.mp h
      obtain ⟨⟨hours, afterHours⟩, -, h⟩ := Option.bind_eq_some_iff.mp h
      obtain ⟨⟨minutes, afterMinutes⟩, -, h⟩ := Option.bind_eq_some_iff.mp h
      dsimp only at h
      split_ifs at h with refused
      all_goals
        simp only [Bool.or_eq_true, decide_eq_true_eq, not_or, not_lt] at refused
        refine ⟨hours * 60 + minutes, by omega, ?_⟩
        rw [← Option.some.inj (Option.some.inj h)]
        push_cast
      · exact .inr rfl
      · exact .inl rfl

/-- An offset that was read is not changed by cutting it to the minute. -/
theorem lasts_of_offset? {cs : List Char} {m : Moment} (h : offset? cs = some m.offset) :
    m.Lasts where
  sound o ho := by
    obtain ⟨minutes, hm, rfl | rfl⟩ := offset?_whole h o ho <;> rw [Duration.dayMicros] <;> omega
  stored := by
    obtain ⟨date, tick, offset⟩ := m
    cases offset with
    | none => rfl
    | some o =>
      obtain ⟨minutes, hm, ho⟩ := offset?_whole h o rfl
      have whole : Moment.wholeMinutes o = o := by
        rw [Moment.wholeMinutes]
        rcases ho with rfl | rfl <;> split_ifs <;> omega
      rw [Moment.stored, Option.map_some, whole]

theorem offset_of_ofTimestamp? {n : Int} {micros : Nat} {m : Moment}
    (h : ofTimestamp? n micros = some m) : m.offset = some 0 := by
  rw [ofTimestamp?] at h
  split_ifs at h
  all_goals
    rw [Moment.ofLocalMicros?] at h
    split_ifs at h
    obtain ⟨date, -, rfl⟩ := Option.map_eq_some_iff.mp h
    rfl

theorem offset_of_ofNumeralText? {cs : List Char} {m : Moment} (h : ofNumeralText? cs = some m) :
    m.offset = some 0 := by
  rw [ofNumeralText?] at h
  dsimp only at h
  split_ifs at h
  all_goals
    split at h
    · exact offset_of_ofTimestamp? h
    · split at h
      · rw [ofNumeral?] at h
        split at h
        · cases h
        · exact offset_of_ofTimestamp? h
      · cases h
    · cases h

theorem offset_of_assemble {parts : Nat × Nat × Nat} {tick : Fin 86400000000} {offset : Option Int}
    {m : Moment} (h : assemble parts tick offset = .ok m) : m.offset = offset := by
  rw [assemble] at h
  split at h
  · rw [← Except.ok.inj h]
  · cases h

/-- The offset of a time of day is what is left of the text behind it. -/
theorem offset?_of_timeParts? {cs : List Char} {tick : Fin 86400000000} {offset : Option Int}
    (h : timeParts? cs = some (tick, offset)) : ∃ rest, offset? rest = some offset := by
  rw [timeParts?] at h
  obtain ⟨hour, -, h⟩ := Option.bind_eq_some_iff.mp h
  obtain ⟨colon, -, h⟩ := Option.bind_eq_some_iff.mp h
  obtain ⟨minute, -, h⟩ := Option.bind_eq_some_iff.mp h
  obtain ⟨second, -, h⟩ := Option.bind_eq_some_iff.mp h
  dsimp only at h
  split_ifs at h
  all_goals
    obtain ⟨⟨micros, rest⟩, -, h⟩ := Option.bind_eq_some_iff.mp h
    obtain ⟨found, told, h⟩ := Option.bind_eq_some_iff.mp h
    obtain ⟨time, -, h⟩ := Option.bind_eq_some_iff.mp h
    refine ⟨rest, ?_⟩
    rw [told, ← (Prod.mk.inj (Option.some.inj h)).2]

theorem lasts_of_ofText {cs : List Char} {m : Moment} (h : ofText cs = .ok m) : m.Lasts := by
  rw [ofText] at h
  split at h
  · exact .of_universal (.inl (offset_of_assemble h))
  · split at h
    · rename_i tick offset told
      split_ifs at told
      obtain ⟨rest, hr⟩ := offset?_of_timeParts? told
      rw [← offset_of_assemble h] at hr
      exact lasts_of_offset? hr
    · cases h
  · split at h
    · rename_i told
      rw [← Except.ok.inj h]
      exact .of_universal (.inr (offset_of_ofNumeralText? told))
    · cases h

/-- Every moment that is read, however it was spelled, comes back from its stored text as it is. -/
theorem lasts_of_read {value : Json} {m : Moment} (h : read value = .ok m) : m.Lasts := by
  rw [read.eq_def] at h
  split at h
  · split at h
    · exact lasts_of_ofText h
    · cases h
  · split_ifs at h
    split at h
    · rename_i told
      rw [ofWord?] at told
      split_ifs at told
      rw [← Except.ok.inj h]
      exact .of_universal (.inr (offset_of_ofTimestamp? told))
    · cases h
  · split at h
    · rename_i told
      rw [ofDouble?] at told
      split at told
      · cases told
      · rw [← Except.ok.inj h]
        exact .of_universal (.inr (offset_of_ofTimestamp? told))
    · cases h
  · cases h

end LaxReader

namespace Schema

theorem moment_eq_ok {value : Json} {m : Moment} (h : moment value = .ok m) :
    LaxReader.read value = .ok m := by
  rw [moment] at h
  split at h
  · rename_i found told
    rw [told, Except.ok.inj h]
  · cases h

/-- A member that may be absent was read, or it has the value for its absence. -/
theorem optional_eq_ok {α : Type} {members : Assoc Text Json} {name : Text} {absent a : α}
    {read : Json → Reading α} (h : optional members name absent read = .ok a) :
    a = absent ∨ ∃ value, read value = .ok a := by
  rw [optional] at h
  split at h
  · rename_i value _
    exact .inr ⟨value, under_eq_ok.mp h⟩
  · exact .inl (Except.ok.inj h).symm

end Schema

namespace Worker

/-- The normal form of a worker: its id and name are trimmed and not blank, and its time of
registration comes back from its stored text. -/
structure IsNormal (worker : Worker) : Prop where
  trimmed : worker.id.trim = worker.id ∧ worker.name.trim = worker.name
  named : worker.id ≠ [] ∧ worker.name ≠ []
  created : worker.created.Lasts

theorem trimmed_of_label {value : Json} {t : Text} (h : label value = .ok t) :
    t.trim = t ∧ t ≠ [] := by
  cases value with
  | str given =>
    obtain ⟨rfl, ht⟩ := label_ok h
    exact ⟨Text.trim_trim given, ht⟩
  | _ => cases h

/-- Whatever document it is read from, a worker is in its normal form. -/
theorem isNormal_of_read {now : Moment} (lasts : now.Lasts) {value : Json} {worker : Worker}
    (h : read now value = .ok worker) : worker.IsNormal := by
  obtain ⟨members, -, h⟩ := Schema.bind_eq_ok.mp h
  obtain ⟨⟨id, name, secret, created⟩, parts, last⟩ := Schema.bind_eq_ok.mp h
  simp only [Schema.both_eq_ok] at parts
  obtain ⟨hid, hname, -, hcreated⟩ := parts
  obtain ⟨idValue, -, hid⟩ := Schema.required_eq_ok hid
  obtain ⟨nameValue, -, hname⟩ := Schema.required_eq_ok hname
  have hid := trimmed_of_label hid
  have hname := trimmed_of_label hname
  have hcreated : created.Lasts := by
    rcases Schema.optional_eq_ok hcreated with rfl | ⟨time, ht⟩
    · exact lasts
    · exact LaxReader.lasts_of_read (Schema.moment_eq_ok ht)
  rw [← Except.ok.inj last]
  exact ⟨⟨hid.1, hname.1⟩, ⟨hid.2, hname.2⟩, hcreated⟩

def withoutSecret (worker : Worker) : Worker := { worker with secret := none }

/-- A worker in its normal form is told by its stored record, but for the secret. -/
theorem IsNormal.read_publicRecord {worker : Worker} (h : worker.IsNormal) (later : Moment) :
    read later worker.publicRecord = .ok worker.withoutSecret := by
  have hid : worker.id.trim ≠ [] := by rw [h.trimmed.1]; exact h.named.1
  have hname : worker.name.trim ≠ [] := by rw [h.trimmed.2]; exact h.named.2
  rw [publicRecord, read_told hid hname h.created.sound, h.trimmed.1, h.trimmed.2,
    h.created.stored, withoutSecret]

end Worker

namespace Session

def withoutSecret : Session → Session
  | .account s => .account { s with passphrase := none }
  | .worker s => .worker { s with worker := s.worker.withoutSecret }

/-- That the worker of a session, if it has one, is in its normal form. -/
def IsNormal : Session → Prop
  | .account _ => True
  | .worker s => s.worker.IsNormal

theorem isNormal_of_read {now : Moment} (lasts : now.Lasts) {value : Json} {session : Session}
    (h : read now value = .ok session) : session.IsNormal := by
  rw [read.eq_def] at h
  split at h
  · split at h
    · cases h
    · split_ifs at h
      · obtain ⟨s, -, rfl⟩ := Schema.map_eq_ok (Schema.under_eq_ok.mp h)
        trivial
      · obtain ⟨s, hr, rfl⟩ := Schema.map_eq_ok (Schema.under_eq_ok.mp h)
        obtain ⟨members, -, hr⟩ := Schema.bind_eq_ok.mp hr
        obtain ⟨⟨tag, subject, handle, worker⟩, parts, last⟩ := Schema.bind_eq_ok.mp hr
        simp only [Schema.both_eq_ok] at parts
        obtain ⟨record, -, hw⟩ := Schema.required_eq_ok parts.2.2.2
        rw [← Except.ok.inj last]
        exact Worker.isNormal_of_read lasts hw
      · cases h
    · cases h
  · cases h

/-- A session in its normal form is told by its record in the index, but for the secret. -/
theorem IsNormal.read_indexRecord {session : Session} (h : session.IsNormal) (later : Moment) :
    read later session.indexRecord = .ok session.withoutSecret := by
  cases session with
  | account s => rfl
  | worker s => exact read_told (Worker.IsNormal.read_publicRecord h later)

def secretNames : List Text := ["secret", "derived_secret"]

theorem indexRecord_mentions_no_secret (session : Session) :
    ∀ name ∈ secretNames, session.indexRecord.mentions name = false := by
  simp only [secretNames, List.forall_mem_cons, List.not_mem_nil, false_implies, implies_true,
    and_true]
  cases session <;> exact ⟨rfl, rfl⟩

end Session

theorem Worker.publicRecord_mentions_no_secret (worker : Worker) :
    ∀ name ∈ Session.secretNames, worker.publicRecord.mentions name = false := by
  simp only [Session.secretNames, List.forall_mem_cons, List.not_mem_nil, false_implies,
    implies_true, and_true]
  exact ⟨rfl, rfl⟩

namespace Lock.Marker

theorem lasts_of_read {value : Json} {marker : Marker} (h : read value = .ok marker) :
    marker.acquired.Lasts := by
  obtain ⟨members, -, h⟩ := Schema.bind_eq_ok.mp h
  obtain ⟨⟨key, acquired, holder⟩, parts, last⟩ := Schema.bind_eq_ok.mp h
  simp only [Schema.both_eq_ok] at parts
  obtain ⟨time, -, ht⟩ := Schema.required_eq_ok parts.2.1
  rw [← Except.ok.inj last]
  exact LaxReader.lasts_of_read (Schema.moment_eq_ok ht)

end Lock.Marker

/-- A session of a worker with blanks around the id, a time with an offset, a secret and members
that nobody asks for. -/
def spelledSession : Json :=
  .obj [("note", .int 1), ("session_kind", .str "worker"), ("subject_id", .str " worker:w1"),
    ("display_handle", .str "One "), ("worker_ref", .obj [("worker_id", .str "  w1\n"),
      ("public_name", .str "\tOne"), ("created_at", .str "2023-12-31 23:30:15.0625+02:30"),
      ("secret", .str "hush"), ("derived_secret", .bool true)])]

def readSession : Session :=
  .worker ⟨" worker:w1", "One ", ⟨"w1", "One", some "hush",
    ⟨⟨2023, 12, 31, by decide, by decide, by decide⟩, ⟨84615062500, by decide⟩,
      some 9000000000⟩⟩⟩

end SessionKeeper
