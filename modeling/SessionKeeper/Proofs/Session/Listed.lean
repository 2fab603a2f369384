import SessionKeeper.Proofs.Json.Parsed
import SessionKeeper.Proofs.Session.Recalled

/-!
# The sessions among entries

An index may hold anything. Of its entries those count that can be read as sessions, and
whether one can be read does not depend on the time. Where every session is filed under its
own subject, putting a session in replaces the one of its subject and leaves the others. The record of a session with joined texts comes back as it is,
and as the session without its secret.
-/
namespace SessionKeeper

namespace Schema

theorem bind_eq_ok {α β : Type} {x : Reading α} {f : α → Reading β} {b : β} :
    (x >>= f) = .ok b ↔ ∃ a, x = .ok a ∧ f a = .ok b := by
  cases x <;> simp [bind, Except.bind]

/-- A part that is read with one value for its absence is read with any other. -/
theorem optional_other {α : Type} {members : Assoc Text Json} {name : Text} {absent a : α}
    {read : Json → Reading α} (h : optional members name absent read = .ok a) (other : α) :
    ∃ b, optional members name other read = .ok b := by
  rw [optional] at h ⊢
  cases hv : Assoc.value? members name with
  | none => exact ⟨other, rfl⟩
  | some value =>
    rw [hv] at h
    exact ⟨a, h⟩

theorem required_eq_ok {α : Type} {members : Assoc Text Json} {name : Text}
    {read : Json → Reading α} {a : α} (h : required members name read = .ok a) :
    ∃ value, members.value? name = some value ∧ read value = .ok a := by
  rw [required] at h
  cases hv : Assoc.value? members name with
  | none =>
    rw [hv] at h
    cases h
  | some value =>
    rw [hv, under_eq_ok] at h
    exact ⟨value, rfl, h⟩

theorem required_text_eq_ok {members : Assoc Text Json} {name t : Text}
    (h : required members name text = .ok t) : members.value? name = some (.str t) := by
  obtain ⟨value, there, read⟩ := required_eq_ok h
  cases value with
  | str other => rw [there, Except.ok.inj read]
  | _ => cases read

theorem map_eq_ok {α β : Type} {reading : Reading α} {f : α → β} {b : β}
    (h : reading.map f = .ok b) : ∃ a, reading = .ok a ∧ f a = b := by
  cases reading with
  | error issues => cases h
  | ok a => exact ⟨a, rfl, Except.ok.inj h⟩

end Schema

theorem Worker.read_later {now : Moment} {value : Json} {worker : Worker}
    (h : Worker.read now value = .ok worker) (later : Moment) :
    ∃ other, Worker.read later value = .ok other := by
  rw [Worker.read, Schema.bind_eq_ok] at h
  obtain ⟨members, record, h⟩ := h
  obtain ⟨⟨id, name, secret, created⟩, parts, -⟩ := Schema.bind_eq_ok.mp h
  simp only [Schema.both_eq_ok] at parts
  obtain ⟨hid, hname, hsecret, hcreated⟩ := parts
  obtain ⟨other, hother⟩ := Schema.optional_other hcreated later
  refine ⟨⟨id, name, secret, other⟩, ?_⟩
  rw [Worker.read, record, Schema.bind_eq_ok]
  refine ⟨members, rfl, Schema.bind_eq_ok.mpr ⟨⟨id, name, secret, other⟩, ?_, rfl⟩⟩
  simp only [Schema.both_eq_ok]
  exact ⟨hid, hname, hsecret, hother⟩

/-- A worker that was read has the id that its record tells, without the blanks around it. -/
theorem Worker.id_of_read {now : Moment} {value : Json} {worker : Worker} {id : Text}
    (h : Worker.read now value = .ok worker) (told : value.member? "worker_id" = some (.str id)) :
    worker.id = id.trim := by
  cases value with
  | obj members =>
    obtain ⟨members, ⟨⟩, h⟩ := Schema.bind_eq_ok.mp h
    obtain ⟨⟨found, name, secret, created⟩, parts, last⟩ := Schema.bind_eq_ok.mp h
    simp only [Schema.both_eq_ok] at parts
    have read := parts.1
    rw [Schema.required, show Assoc.value? members "worker_id" = some (Json.str id) from told,
      Schema.under_eq_ok, Worker.label] at read
    obtain ⟨t, ⟨⟩, read⟩ := Schema.bind_eq_ok.mp read
    split_ifs at read
    · cases read
    · rw [← Except.ok.inj last]
      exact (Except.ok.inj read).symm
  | _ => cases h

theorem WorkerSession.read_later {now : Moment} {value : Json} {session : WorkerSession}
    (h : WorkerSession.read now value = .ok session) (later : Moment) :
    ∃ other, WorkerSession.read later value = .ok other ∧ other.subject = session.subject := by
  rw [WorkerSession.read, Schema.bind_eq_ok] at h
  obtain ⟨members, record, h⟩ := h
  obtain ⟨⟨tag, subject, handle, worker⟩, parts, last⟩ := Schema.bind_eq_ok.mp h
  simp only [Schema.both_eq_ok] at parts
  obtain ⟨htag, hsubject, hhandle, hworker⟩ := parts
  obtain ⟨other, hother⟩ : ∃ other,
      Schema.required members "worker_ref" (Worker.read later) = .ok other := by
    rw [Schema.required] at hworker ⊢
    cases hv : Assoc.value? members "worker_ref" with
    | none =>
      rw [hv] at hworker
      cases hworker
    | some value =>
      rw [hv, Schema.under_eq_ok] at hworker
      obtain ⟨other, hother⟩ := Worker.read_later hworker later
      exact ⟨other, Schema.under_eq_ok.mpr hother⟩
  have same : WorkerSession.mk subject handle worker = session := Except.ok.inj last
  refine ⟨⟨subject, handle, other⟩, ?_, by rw [← same]⟩
  rw [WorkerSession.read, record, Schema.bind_eq_ok]
  refine ⟨members, rfl, Schema.bind_eq_ok.mpr ⟨⟨tag, subject, handle, other⟩, ?_, rfl⟩⟩
  simp only [Schema.both_eq_ok]
  exact ⟨htag, hsubject, hhandle, hother⟩

theorem AccountSession.value?_of_read {members : Assoc Text Json} {session : AccountSession}
    (h : AccountSession.read (.obj members) = .ok session) :
    members.value? "subject_id" = some (.str session.subject) := by
  obtain ⟨members, ⟨⟩, h⟩ := Schema.bind_eq_ok.mp h
  obtain ⟨⟨tag, subject, handle, passphrase⟩, parts, last⟩ := Schema.bind_eq_ok.mp h
  simp only [Schema.both_eq_ok] at parts
  rw [← Except.ok.inj last]
  exact Schema.required_text_eq_ok parts.2.1

theorem WorkerSession.value?_of_read {now : Moment} {members : Assoc Text Json}
    {session : WorkerSession} (h : WorkerSession.read now (.obj members) = .ok session) :
    members.value? "subject_id" = some (.str session.subject) := by
  obtain ⟨members, ⟨⟩, h⟩ := Schema.bind_eq_ok.mp h
  obtain ⟨⟨tag, subject, handle, worker⟩, parts, last⟩ := Schema.bind_eq_ok.mp h
  simp only [Schema.both_eq_ok] at parts
  rw [← Except.ok.inj last]
  exact Schema.required_text_eq_ok parts.2.1

namespace Session

theorem member?_of_read {now : Moment} {value : Json} {session : Session}
    (h : read now value = .ok session) :
    value.member? "subject_id" = some (.str session.subject) := by
  rw [read.eq_def] at h
  split at h
  · rename_i members
    split at h
    · cases h
    · split_ifs at h
      · obtain ⟨s, hr, rfl⟩ := Schema.map_eq_ok (Schema.under_eq_ok.mp h)
        exact AccountSession.value?_of_read hr
      · obtain ⟨s, hr, rfl⟩ := Schema.map_eq_ok (Schema.under_eq_ok.mp h)
        exact WorkerSession.value?_of_read hr
      · cases h
    · cases h
  · cases h

/-- Whether a record can be read as a session, and of which subject, is the same at any time. -/
theorem read_later {now : Moment} {value : Json} {session : Session}
    (h : read now value = .ok session) (later : Moment) :
    ∃ other, read later value = .ok other ∧ other.subject = session.subject := by
  rw [read.eq_def] at h ⊢
  split at h
  · rename_i members
    cases hv : Assoc.value? members "session_kind" with
    | none =>
      rw [hv] at h
      nomatch h
    | some kind =>
      rw [hv] at h
      cases kind with
      | str tag =>
        dsimp only at h ⊢
        split_ifs at h ⊢
        · exact ⟨session, h, rfl⟩
        · rw [Schema.under_eq_ok] at h
          cases hr : WorkerSession.read now (.obj members) with
          | error issues =>
            rw [hr] at h
            nomatch h
          | ok found =>
            rw [hr] at h
            obtain ⟨other, hother, same⟩ := WorkerSession.read_later hr later
            refine ⟨.worker other, ?_, ?_⟩
            · rw [hother]
              rfl
            · rw [← Except.ok.inj h]
              exact same
        · nomatch h
      | _ => nomatch h
  · nomatch h

/-- The sessions that entries hold, in order. -/
def listed (now : Moment) (entries : Assoc Text Json) : List Session :=
  entries.filterMap fun pair => (read now pair.2).toOption

theorem mem_listed {now : Moment} {entries : Assoc Text Json} {session : Session} :
    session ∈ listed now entries ↔ ∃ pair ∈ entries, read now pair.2 = .ok session := by
  rw [listed, List.mem_filterMap]
  constructor <;> rintro ⟨pair, hp, hr⟩ <;> refine ⟨pair, hp, ?_⟩
  · cases hv : read now pair.2 with
    | error issues =>
      rw [hv] at hr
      nomatch hr
    | ok found =>
      rw [hv] at hr
      rw [Option.some.inj hr]
  · rw [hr]
    rfl

/-- That every session among entries has its own subject as its key. -/
def AreFiled (entries : Assoc Text Json) : Prop :=
  ∀ pair ∈ entries, ∀ now session, read now pair.2 = .ok session → session.subject = pair.1

theorem AreFiled.remove {entries : Assoc Text Json} (h : AreFiled entries) (key : Text) :
    AreFiled (entries.remove key) := fun pair hp => h pair (Assoc.mem_remove hp)

theorem AreFiled.put {entries : Assoc Text Json} (h : AreFiled entries)
    (nodup : entries.keys.Nodup) {key : Text} {record : Json}
    (own : ∀ now session, read now record = .ok session → session.subject = key) :
    AreFiled (entries.put key record) := by
  intro pair hp
  rcases Assoc.mem_put nodup key record pair hp with rfl | ⟨hp, -⟩
  · exact own
  · exact h pair hp

theorem exists_listed_later {entries : Assoc Text Json} {now : Moment} {session : Session}
    (h : session ∈ listed now entries) (later : Moment) :
    ∃ other ∈ listed later entries, other.subject = session.subject := by
  obtain ⟨pair, hp, hr⟩ := mem_listed.mp h
  obtain ⟨other, hother, same⟩ := read_later hr later
  exact ⟨other, mem_listed.mpr ⟨pair, hp, hother⟩, same⟩

/-- Taking a subject out takes out its sessions and no other ones. -/
theorem listed_remove {entries : Assoc Text Json} (h : AreFiled entries) (now : Moment)
    (subject : Text) : listed now (entries.remove subject) =
      (listed now entries).filter fun session => session.subject ≠ subject := by
  induction entries with
  | nil => rfl
  | cons pair rest ih =>
    have ih := ih fun other ho => h other (List.mem_cons_of_mem _ ho)
    obtain ⟨key, value⟩ := pair
    have own := h (key, value) List.mem_cons_self now
    have front : listed now ((key, value) :: rest) =
        (read now value).toOption.toList ++ listed now rest := by
      rw [listed, List.filterMap_cons]
      cases (read now value).toOption <;> rfl
    rw [Assoc.remove, front, List.filter_append]
    cases hr : read now value with
    | error issues =>
      split_ifs
      · exact ih
      · rw [listed, List.filterMap_cons, hr]
        exact ih
    | ok session =>
      have hs : session.subject = key := own session hr
      split_ifs with hk
      · rw [ih]
        simp [Except.toOption, hs, hk]
      · rw [listed, List.filterMap_cons, hr, ← listed, ih]
        simp [Except.toOption, hs, hk]

theorem nodup_subjects {entries : Assoc Text Json} (nodup : entries.keys.Nodup)
    (filed : AreFiled entries) (now : Moment) : ((listed now entries).map subject).Nodup := by
  induction entries with
  | nil => exact List.nodup_nil
  | cons pair rest ih =>
    rw [Assoc.keys_cons, List.nodup_cons] at nodup
    have ih := ih nodup.2 fun other ho => filed other (List.mem_cons_of_mem _ ho)
    cases hr : read now pair.2 with
    | error issues =>
      rw [listed, List.filterMap_cons_none (by rw [hr]; rfl)]
      exact ih
    | ok session =>
      rw [listed, List.filterMap_cons_some (by rw [hr]; rfl), ← listed, List.map_cons,
        List.nodup_cons]
      refine ⟨fun again => nodup.1 ?_, ih⟩
      obtain ⟨other, ho, same⟩ := List.mem_map.mp again
      obtain ⟨later, hl, hother⟩ := mem_listed.mp ho
      refine List.mem_map.mpr ⟨later, hl, ?_⟩
      rw [← filed later (List.mem_cons_of_mem _ hl) now other hother, same,
        filed pair List.mem_cons_self now session hr]

theorem listed_remove_first {entries : Assoc Text Json} (nodup : entries.keys.Nodup)
    (filed : AreFiled entries) {now : Moment} {first : Session} {rest : List Session}
    (h : listed now entries = first :: rest) :
    listed now (entries.remove first.subject) = rest := by
  have apart := nodup_subjects nodup filed now
  rw [h, List.map_cons, List.nodup_cons] at apart
  rw [listed_remove filed, h, List.filter_cons_of_neg (by simp), List.filter_eq_self]
  intro other ho
  simpa using fun same => apart.1 (List.mem_map.mpr ⟨other, ho, same⟩)

theorem listed_put_others {entries : Assoc Text Json} (nodup : entries.keys.Nodup)
    (filed : AreFiled entries) (now : Moment) {subject : Text} {record : Json}
    (own : ∀ now session, read now record = .ok session → session.subject = subject) :
    ((listed now (entries.put subject record)).filter fun session => session.subject ≠ subject) =
      (listed now entries).filter fun session => session.subject ≠ subject := by
  rw [← listed_remove (filed.put nodup own), ← listed_remove filed, Assoc.remove_put_self]

theorem mem_listed_put {entries : Assoc Text Json} (nodup : entries.keys.Nodup)
    (filed : AreFiled entries) {now : Moment} {subject : Text} {record : Json} {session : Session}
    (own : ∀ now session, read now record = .ok session → session.subject = subject)
    (hr : read now record = .ok session) :
    session ∈ listed now (entries.put subject record) ∧
      ∀ other ∈ listed now (entries.put subject record), other.subject = subject →
        other = session := by
  have there := Assoc.mem_of_value? (Assoc.value?_put_self entries subject record)
  have mem : session ∈ listed now (entries.put subject record) := mem_listed.mpr ⟨_, there, hr⟩
  refine ⟨mem, fun other ho same => ?_⟩
  have apart := nodup_subjects (Assoc.nodup_put nodup subject record) (filed.put nodup own) now
  exact List.inj_on_of_nodup_map apart ho mem (same.trans (own now session hr).symm)

theorem listed_put {entries : Assoc Text Json} (nodup : entries.keys.Nodup)
    (filed : AreFiled entries) {now : Moment} {subject : Text}
    (others : ∀ session ∈ listed now entries, session.subject = subject) {record : Json}
    {session : Session} (hr : read now record = .ok session) :
    listed now (entries.put subject record) = [session] := by
  induction entries with
  | nil =>
    show List.filterMap _ [(subject, record)] = _
    rw [List.filterMap_cons, hr]
    rfl
  | cons pair rest ih =>
    obtain ⟨key, value⟩ := pair
    rw [Assoc.keys_cons, List.nodup_cons] at nodup
    have filed' : AreFiled rest := fun other ho => filed other (List.mem_cons_of_mem _ ho)
    have others' (other : Session) (ho : other ∈ listed now rest) : other.subject = subject := by
      obtain ⟨pair, hp, he⟩ := mem_listed.mp ho
      exact others other (mem_listed.mpr ⟨pair, List.mem_cons_of_mem _ hp, he⟩)
    rw [Assoc.put]
    -- Either the record is replaced here, and the key is in no later pair, or this pair stays and
    -- is of another subject, so that it cannot be read.
    split_ifs with hk
    · have none_left : listed now rest = [] := by
        rw [List.eq_nil_iff_forall_not_mem]
        intro other ho
        obtain ⟨pair, hp, he⟩ := mem_listed.mp ho
        have hkey := (filed' pair hp now other he).symm.trans (others' other ho)
        refine nodup.1 (List.mem_map.mpr ⟨pair, hp, ?_⟩)
        rw [hkey, hk]
      rw [listed, List.filterMap_cons, hr, ← listed, none_left]
      rfl
    · have unread : (read now value).toOption = none := by
        cases he : read now value with
        | error issues => rfl
        | ok other =>
          have hs := others other (mem_listed.mpr ⟨(key, value), List.mem_cons_self, he⟩)
          exact absurd ((filed (key, value) List.mem_cons_self now other he).symm.trans hs) hk
      rw [listed, List.filterMap_cons, unread]
      exact ih nodup.2 filed' others'

theorem listed_put_eq_singleton {entries : Assoc Text Json} (nodup : entries.keys.Nodup)
    (filed : AreFiled entries) {now : Moment} {subject : Text} {record : Json} {session : Session}
    (own : ∀ now session, read now record = .ok session → session.subject = subject)
    (hr : read now record = .ok session) : listed now (entries.put subject record) = [session] ↔
      ∀ other ∈ listed now entries, other.subject = subject := by
  refine ⟨fun only other ho => ?_, fun others => listed_put nodup filed others hr⟩
  by_contra different
  have left : other ∈ (listed now (entries.put subject record)).filter
      fun session => session.subject ≠ subject := by
    rw [listed_put_others nodup filed now own, List.mem_filter]
    exact ⟨ho, by simpa using different⟩
  rw [only, List.mem_filter, List.mem_singleton] at left
  obtain ⟨rfl, apart⟩ := left
  simp [own now _ hr] at apart

end Session

theorem Json.isRegular_of_names {room : Nat} {members : Assoc Text Json} (names : List Text)
    (hn : Assoc.keys members = names) (known : names.Nodup ∧ ∀ name ∈ names, name.IsJoined)
    (values : ∀ m ∈ members, m.2.IsRegular room) : (Json.obj members).IsRegular (room + 1) := by
  subst hn
  exact (Json.isRegular_obj members).mpr ⟨known.1, fun m hm =>
    ⟨known.2 m.1 (List.mem_map.mpr ⟨m, hm, rfl⟩), values m hm⟩⟩

theorem Worker.isRegular_publicRecord {worker : Worker} (hid : worker.id.IsJoined)
    (hname : worker.name.IsJoined) : worker.publicRecord.IsRegular 1 := by
  have time : worker.created.storedText.IsJoined := by
    rw [Moment.storedText_eq]
    exact Text.isJoined_ofChars _
  refine Json.isRegular_of_names ["worker_id", "public_name", "created_at"] rfl (by decide) ?_
  simp only [List.forall_mem_cons, List.not_mem_nil, false_implies, implies_true, and_true]
  exact ⟨Json.isRegular_str hid, Json.isRegular_str hname, Json.isRegular_str time⟩

/-- A worker whose record says all but its secret is read from that record. -/
theorem Worker.read_publicRecord {worker : Worker} (hid : worker.id.IsJoined)
    (hname : worker.name.IsJoined) (sound : worker.IsSound) (now : Moment) :
    Worker.read now worker.publicRecord = .ok worker.recalled := by
  have same := (isRegular_publicRecord hid hname).reread_eq
  rw [← same]
  exact worker.read_reread sound now

namespace Session

/-- That all texts of a session are joined. -/
def IsJoined : Session → Prop
  | .account s => s.subject.IsJoined ∧ s.handle.IsJoined ∧ ∀ p, s.passphrase = some p → p.IsJoined
  | .worker s => s.subject.IsJoined ∧ s.handle.IsJoined ∧ s.worker.id.IsJoined ∧
      s.worker.name.IsJoined ∧ ∀ secret, s.worker.secret = some secret → secret.IsJoined

theorem IsJoined.subject {session : Session} (h : session.IsJoined) : session.subject.IsJoined := by
  cases session <;> exact h.1

theorem isRegular_indexRecord {session : Session} (h : session.IsJoined) :
    session.indexRecord.IsRegular 2 := by
  cases session with
  | account s =>
    refine Json.isRegular_of_names ["session_kind", "subject_id", "display_handle"] rfl
      (by decide) ?_
    simp only [List.forall_mem_cons, List.not_mem_nil, false_implies, implies_true, and_true]
    exact ⟨Json.isRegular_str (by decide), Json.isRegular_str h.1, Json.isRegular_str h.2.1⟩
  | worker s =>
    refine Json.isRegular_of_names ["session_kind", "subject_id", "display_handle", "worker_ref"]
      rfl (by decide) ?_
    simp only [List.forall_mem_cons, List.not_mem_nil, false_implies, implies_true, and_true]
    exact ⟨Json.isRegular_str (by decide), Json.isRegular_str h.1, Json.isRegular_str h.2.1,
      Worker.isRegular_publicRecord h.2.2.1 h.2.2.2.1⟩

theorem read_indexRecord {session : Session} (joined : session.IsJoined) (sound : session.IsSound)
    (now : Moment) : read now session.indexRecord = .ok session.recalled := by
  have same := (isRegular_indexRecord joined).reread_eq
  rw [← same]
  exact session.read_reread sound now

end Session

end SessionKeeper
