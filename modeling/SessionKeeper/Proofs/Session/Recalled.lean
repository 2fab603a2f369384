import SessionKeeper.Proofs.Assoc
import SessionKeeper.Proofs.Json.Reread
import SessionKeeper.Proofs.Text.Blank
import SessionKeeper.Proofs.Time.Stored
import SessionKeeper.Session.Session

/-!
# Sessions come back from the index

The record of a session in the index, printed and read again, is the record of the same
session without its secret. Its texts come back with their surrogate pairs joined and
its time of registration with the offset cut to the minute.
-/
namespace SessionKeeper

/-- That a moment is one of a clock: its offset, if it has one, is shorter than a day. -/
def Moment.IsSound (m : Moment) : Prop :=
  ∀ offset, m.offset = some offset → offset.natAbs < Duration.dayMicros

/-- That a moment comes back from its stored text as it is: an offset that it has is one of whole
minutes. -/
structure Moment.Lasts (m : Moment) : Prop where
  sound : m.IsSound
  stored : m.stored = m

theorem Moment.Lasts.of_universal {m : Moment} (h : m.offset = none ∨ m.offset = some 0) :
    m.Lasts where
  sound offset ho := by
    rcases h with h | h <;> rw [h] at ho <;> cases ho
    decide
  stored := m.stored_of_universal h

namespace Json

mutual
/-- Whether a member of this name stands anywhere in a document. -/
def mentions (name : Text) : Json → Bool
  | .arr items => itemsMention name items
  | .obj members => membersMention name members
  | _ => false

/-- Whether a member of this name stands anywhere in one of the documents. -/
def itemsMention (name : Text) : List Json → Bool
  | [] => false
  | item :: rest => item.mentions name || itemsMention name rest

def membersMention (name : Text) : List (Text × Json) → Bool
  | [] => false
  | (key, value) :: rest => key = name || value.mentions name || membersMention name rest
end

theorem keys_rereadMembers (members : List (Text × Json)) :
    Assoc.keys (rereadMembers members) = (Assoc.keys members).map Text.rejoin := by
  induction members with
  | nil => rfl
  | cons member members ih =>
    obtain ⟨name, value⟩ := member
    rw [rereadMembers, Assoc.keys_cons, Assoc.keys_cons, List.map_cons, ih]

/-- Members whose names stay apart all come back. -/
theorem reread_obj (members : List (Text × Json)) (names : List Text)
    (hn : Assoc.keys members = names) (h : (names.map Text.rejoin).Nodup) :
    (Json.obj members).reread = .obj (rereadMembers members) := by
  rw [reread, Assoc.ofPairs_of_nodup]
  rw [keys_rereadMembers, hn]
  exact h

end Json

namespace Worker

/-- That a worker can be read from its record: neither its id nor its name is blank. -/
structure IsSound (worker : Worker) : Prop where
  id : worker.id.rejoin.trim ≠ []
  name : worker.name.rejoin.trim ≠ []
  created : worker.created.IsSound

/-- The worker as its stored record tells it. -/
def recalled (worker : Worker) : Worker :=
  ⟨worker.id.rejoin.trim, worker.name.rejoin.trim, none, worker.created.stored⟩

theorem label_text (t : Text) (h : t.trim ≠ []) : label (.str t) = .ok t.trim := by
  have he : t.trim.isEmpty = false := by
    rw [List.isEmpty_eq_false_iff]
    exact h
  rw [label]
  simp only [Schema.text, bind, Except.bind, he]
  rfl

theorem reread_publicRecord (worker : Worker) : worker.publicRecord.reread =
    .obj [("worker_id", .str worker.id.rejoin), ("public_name", .str worker.name.rejoin),
      ("created_at", .str worker.created.storedText)] := by
  rw [publicRecord, Json.reread_obj _ ["worker_id", "public_name", "created_at"] rfl (by decide)]
  simp only [Json.rereadMembers, Json.reread, Text.rejoin_ofString, Moment.storedText_eq,
    Text.rejoin_ofChars]

theorem isCanonical_publicRecord (worker : Worker) : worker.publicRecord.isCanonical = true := rfl

/-- A worker is read from a record that tells its parts. -/
theorem read_told {id name : Text} {created : Moment} (hid : id.trim ≠ []) (hname : name.trim ≠ [])
    (sound : created.IsSound) (now : Moment) :
    read now (.obj [("worker_id", .str id), ("public_name", .str name),
      ("created_at", .str created.storedText)]) = .ok ⟨id.trim, name.trim, none, created.stored⟩ := by
  have hid := label_text _ hid
  have hname := label_text _ hname
  have hcreated := LaxReader.read_storedText created sound
  rw [read]
  have v1 : Assoc.value? [(Text.ofString "worker_id", Json.str id), ("public_name", .str name),
    ("created_at", .str created.storedText)] "worker_id" = some (.str id) := rfl
  have v2 : Assoc.value? [(Text.ofString "worker_id", Json.str id), ("public_name", .str name),
    ("created_at", .str created.storedText)] "public_name" = some (.str name) := rfl
  have v3 : Assoc.value? [(Text.ofString "worker_id", Json.str id), ("public_name", .str name),
    ("created_at", .str created.storedText)] "secret" = none := rfl
  have v4 : Assoc.value? [(Text.ofString "worker_id", Json.str id), ("public_name", .str name),
    ("created_at", .str created.storedText)] "created_at" = some (.str created.storedText) := rfl
  simp only [Schema.record, bind, Except.bind, Schema.required, Schema.optional, v1, v2, v3, v4, hid,
    hname, Schema.moment, hcreated, Schema.under, Except.mapError, Schema.both]
  rfl

theorem read_reread (worker : Worker) (h : worker.IsSound) (now : Moment) :
    read now worker.publicRecord.reread = .ok worker.recalled := by
  rw [reread_publicRecord]
  exact read_told h.id h.name h.created now

theorem label_ok {t u : Text} (h : label (.str t) = .ok u) : u = t.trim ∧ t.trim ≠ [] := by
  by_cases ht : t.trim = []
  · rw [label] at h
    simp only [Schema.text, bind, Except.bind, ht] at h
    nomatch h
  · rw [label_text t ht] at h
    exact ⟨(Except.ok.inj h).symm, ht⟩

/-- A worker that was made has the trimmed parts it was made from. -/
theorem make_ok {id name secret : Text} {created : Moment} {worker : Worker}
    (h : make id name secret created = .ok worker) :
    worker = ⟨id.trim, name.trim, some secret, created⟩ ∧ id.trim ≠ [] ∧ name.trim ≠ [] := by
  rw [make] at h
  cases hid : label (.str id) with
  | error issues =>
    rw [hid] at h
    cases hname : label (.str name) <;> rw [hname] at h <;> nomatch h
  | ok label =>
    rw [hid] at h
    cases hname : Worker.label (.str name) with
    | error issues =>
      rw [hname] at h
      nomatch h
    | ok title =>
      rw [hname] at h
      obtain ⟨rfl, hi⟩ := label_ok hid
      obtain ⟨rfl, hn⟩ := label_ok hname
      exact ⟨(Except.ok.inj h).symm, hi, hn⟩

/-- A worker that was made can be read from its record. -/
theorem isSound_of_make {id name secret : Text} {created : Moment} {worker : Worker}
    (h : make id name secret created = .ok worker) (hc : created.IsSound) : worker.IsSound := by
  obtain ⟨rfl, hid, hname⟩ := make_ok h
  refine ⟨Text.trim_rejoin_ne_nil ?_, Text.trim_rejoin_ne_nil ?_, hc⟩
  · rw [Text.trim_trim]
    exact hid
  · rw [Text.trim_trim]
    exact hname

end Worker

namespace Session

/-- That a session can be read from its record. -/
def IsSound : Session → Prop
  | .account _ => True
  | .worker s => s.worker.IsSound

/-- The session as its record in the index tells it. -/
def recalled : Session → Session
  | .account s => .account ⟨s.subject.rejoin, s.handle.rejoin, none⟩
  | .worker s => .worker ⟨s.subject.rejoin, s.handle.rejoin, s.worker.recalled⟩

theorem subject_recalled (session : Session) : session.recalled.subject = session.subject.rejoin := by
  cases session <;> rfl

theorem reread_indexRecord (session : Session) : session.indexRecord.reread = .obj
    ([(Text.ofString "session_kind", Json.str session.tag),
      (Text.ofString "subject_id", .str session.subject.rejoin),
      (Text.ofString "display_handle", .str session.handle.rejoin)] ++
      match session with
      | .account _ => []
      | .worker s => [(Text.ofString "worker_ref", s.worker.publicRecord.reread)]) := by
  cases session with
  | account s =>
    rw [indexRecord, AccountSession.indexRecord, Json.reread_obj _
      ["session_kind", "subject_id", "display_handle"] rfl (by decide)]
    simp only [Json.rereadMembers, Json.reread, Text.rejoin_ofString, AccountSession.tag]
    rfl
  | worker s =>
    rw [indexRecord, WorkerSession.indexRecord, Json.reread_obj _
      ["session_kind", "subject_id", "display_handle", "worker_ref"] rfl (by decide)]
    simp only [Json.rereadMembers, Json.reread, Text.rejoin_ofString, WorkerSession.tag]
    rfl

theorem read_told {subject handle : Text} {record : Json} {now : Moment} {worker : Worker}
    (h : Worker.read now record = .ok worker) :
    read now (.obj [("session_kind", .str WorkerSession.tag), ("subject_id", .str subject),
      ("display_handle", .str handle), ("worker_ref", record)]) =
      .ok (.worker ⟨subject, handle, worker⟩) := by
  have v : Schema.required [(Text.ofString "session_kind", Json.str WorkerSession.tag),
      (Text.ofString "subject_id", .str subject), (Text.ofString "display_handle", .str handle),
      (Text.ofString "worker_ref", record)] "worker_ref" (Worker.read now) = .ok worker := by
    show Schema.under "worker_ref" (Worker.read now record) = _
    rw [h]
    rfl
  have hs : WorkerSession.read now (.obj [(Text.ofString "session_kind", Json.str WorkerSession.tag),
      (Text.ofString "subject_id", .str subject), (Text.ofString "display_handle", .str handle),
      (Text.ofString "worker_ref", record)]) = .ok ⟨subject, handle, worker⟩ := by
    rw [WorkerSession.read]
    simp only [Schema.record, bind, Except.bind, v]
    rfl
  exact congrArg (fun r => Schema.under WorkerSession.tag (Except.map Session.worker r)) hs

theorem read_reread (session : Session) (h : session.IsSound) (now : Moment) :
    read now session.indexRecord.reread = .ok session.recalled := by
  rw [reread_indexRecord]
  cases session with
  | account s => rfl
  | worker s => exact read_told (Worker.read_reread s.worker h now)

theorem mentions_reread (session : Session) (name : Text)
    (h : name = "secret" ∨ name = "derived_secret") :
    session.indexRecord.reread.mentions name = false := by
  rw [reread_indexRecord]
  cases session with
  | account s =>
    rcases h with rfl | rfl <;> rfl
  | worker s =>
    simp only [Worker.reread_publicRecord]
    rcases h with rfl | rfl <;> rfl

theorem member?_reread (session : Session) :
    session.indexRecord.reread.member? "subject_id" = some (.str session.subject.rejoin) := by
  rw [reread_indexRecord]
  rfl

/-- The record of a session can be put into a file and read back. -/
theorem isCanonical_indexRecord (session : Session) : session.indexRecord.isCanonical = true := by
  cases session <;> rfl

end Session

end SessionKeeper
