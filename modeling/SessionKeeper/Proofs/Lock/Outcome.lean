import SessionKeeper.Proofs.Json.Reread
import SessionKeeper.Proofs.Lock.Shape
import SessionKeeper.Proofs.Number.Order
import SessionKeeper.Proofs.Session.Recalled
import SessionKeeper.Proofs.Text.Percent

/-!
# How locks are taken and given back

A marker file that was written is read back as the marker. From it follows what becomes of
every call that is made while nobody else interferes: a fresh marker refuses the lock, a
stale one is replaced, and only the marker that is given back is removed.
-/
namespace SessionKeeper.Lock

namespace Marker

/-- A marker that comes back as it was written: it can be printed, its key has no surrogates to
join and its time is universal. -/
structure IsSound (marker : Marker) : Prop where
  key : marker.key.rejoin = marker.key
  acquired : marker.acquired.offset = some 0
  holder : marker.holder.natAbs < Json.digitLimit

theorem fits_toJson {marker : Marker} (room : Nat) :
    marker.toJson.fits (room + 1) = true ↔ marker.holder.natAbs < Json.digitLimit := by
  rw [toJson, Json.fits_obj]
  simp [Json.fits_int]

variable [Runtime]

theorem exists_octets {marker : Marker} (h : marker.holder.natAbs < Json.digitLimit) :
    ∃ content, Record.octetsOf marker.toJson = .ok content :=
  ⟨_, Record.octetsOf_eq_ok.mpr ⟨(fits_toJson _).mpr h, rfl⟩⟩

omit [Runtime] in
theorem reread_toJson {marker : Marker} (h : marker.key.rejoin = marker.key) :
    marker.toJson.reread = marker.toJson := by
  rw [toJson, Json.reread_obj _ ["key", "acquired_at", "pid"] rfl (by decide)]
  simp only [Json.rereadMembers, Json.reread, Text.rejoin_ofString, Moment.storedText_eq,
    Text.rejoin_ofChars, h]

omit [Runtime] in
/-- A marker whose time comes back from its text is read from its record. -/
theorem read_toJson {marker : Marker} (lasts : marker.acquired.Lasts) :
    read marker.toJson = .ok marker := by
  have hm := LaxReader.read_storedText marker.acquired lasts.sound
  rw [lasts.stored] at hm
  have v1 : Assoc.value? [(Text.ofString "key", Json.str marker.key),
    ("acquired_at", .str marker.acquired.storedText), ("pid", .int marker.holder)] "key" =
      some (.str marker.key) := rfl
  have v2 : Assoc.value? [(Text.ofString "key", Json.str marker.key),
    ("acquired_at", .str marker.acquired.storedText), ("pid", .int marker.holder)] "acquired_at" =
      some (.str marker.acquired.storedText) := rfl
  have v3 : Assoc.value? [(Text.ofString "key", Json.str marker.key),
    ("acquired_at", .str marker.acquired.storedText), ("pid", .int marker.holder)] "pid" =
      some (.int marker.holder) := rfl
  rw [toJson, read]
  simp only [Schema.record, bind, Except.bind, Schema.required, v1, v2, v3, Schema.text,
    Schema.moment, hm, Schema.integer, Schema.under, Except.mapError, Schema.both]
  rfl

theorem exists_entries {marker : Marker} (key : marker.key.rejoin = marker.key)
    (lasts : marker.acquired.Lasts) {content : Octets}
    (printed : Record.octetsOf marker.toJson = .ok content) :
    ∃ entries, Record.entriesOf content = .ok (.ok entries) ∧ read (.obj entries) = .ok marker := by
  have canonical : marker.toJson.isCanonical = true := rfl
  obtain ⟨fits, rfl⟩ := Record.octetsOf_eq_ok.mp printed
  have he := Record.entriesOf_octetsIn _ canonical ((fits_toJson _).mpr ((fits_toJson _).mp fits))
  have hr : Json.obj (Assoc.ofPairs (Json.rereadMembers
      [("key", .str marker.key), ("acquired_at", .str marker.acquired.storedText),
        ("pid", .int marker.holder)])) = marker.toJson := reread_toJson key
  refine ⟨_, he, ?_⟩
  rw [hr]
  exact read_toJson lasts

end Marker


variable {machine : Machine} {folder : Path} {place : Location} {name : String} {lock : Lock}
  {key : Text} {marker : Marker}

theorem fileName?_injective {other : Text} (hk : fileName? key = some name)
    (ho : fileName? other = some name) : key = other := by
  obtain ⟨spelled, hs, hn⟩ := Option.map_eq_some_iff.mp hk
  obtain ⟨spelled', hs', hn'⟩ := Option.map_eq_some_iff.mp ho
  have same : spelled = spelled' := by
    have h := congrArg String.toList (hn.trans hn'.symm)
    simp only [String.toList_append, List.append_assoc, List.append_cancel_left_eq,
      List.append_cancel_right_eq] at h
    exact String.toList_inj.mp h
  exact Percent.encode?_injective hs (same ▸ hs')

theorem ne_up_of_fileName? (hk : fileName? key = some name) : name ≠ ".." := by
  obtain ⟨spelled, -, rfl⟩ := Option.map_eq_some_iff.mp hk
  intro h
  have hl := congrArg (fun s => s.toList.length) h
  simp only [String.toList_append, List.length_append] at hl
  have hd : ("lock-".toList).length = 5 := rfl
  have hu : ("..".toList).length = 2 := rfl
  omega

/-- A key that has a marker file holds no surrogates. -/
theorem rejoin_of_fileName? (hk : fileName? key = some name) : key.rejoin = key := by
  obtain ⟨spelled, hs, -⟩ := Option.map_eq_some_iff.mp hk
  obtain ⟨octets, ho, -⟩ := Option.map_eq_some_iff.mp hs
  obtain ⟨cs, hc, -⟩ := Option.map_eq_some_iff.mp ho
  rw [Text.eq_ofChars hc, Text.rejoin_ofChars]

/-- While a marker is fresh it was fresh before. -/
theorem isFreshAge_of_le {age older : Duration} (h0 : 0 ≤ age.micros) (h : age.micros ≤ older.micros)
    (fresh : lock.isFreshAge older = true) : lock.isFreshAge age = true :=
  Duration.seconds_atMost h0 h _ fresh

theorem isFreshAge_zero (h : 0 < lock.staleAfter.micros) : lock.isFreshAge ⟨0⟩ = true :=
  Duration.zero_lt_seconds h

theorem isStale_exec {marker : Marker} {age : Duration} (old : marker.age? machine.now = some age) :
    (lock.isStale marker).exec machine = (.ok (!lock.isFreshAge age), machine) := by
  have aged : (ageOf marker machine.now).exec machine = (.ok age, machine) := by
    rw [ageOf, old]
    rfl
  rw [isStale, Action.exec_bind_ok (Action.exec_now machine), Action.exec_bind_ok aged]
  rfl

variable [Runtime]

/-- The file under a name is the written form of a marker. -/
def Stands (machine : Machine) (place : Location) (name : String) (marker : Marker) : Prop :=
  ∃ number mode content, machine.under place name = some (.file number mode content) ∧
    Record.octetsOf marker.toJson = .ok content

theorem Stands.of_under {other : Machine} (h : Stands machine place name marker)
    (hu : other.under place name = machine.under place name) : Stands other place name marker := by
  unfold Stands at h ⊢
  rw [hu]
  exact h

theorem readMarkerAt_absent (g : Ground machine folder place) (hn : Tree.IsFileName name)
    (free : machine.under place name = none) :
    (readMarkerAt (folder.child name)).exec machine = (.ok none, machine) := by
  have hr := Record.read_exec g hn (.inl ⟨rfl, free⟩)
  rw [free] at hr
  exact (Action.exec_bind_ok hr).trans rfl

/-- The file under a name tells a marker, whoever wrote it and however. -/
def Tells (machine : Machine) (place : Location) (name : String) (marker : Marker) : Prop :=
  ∃ number mode content entries, machine.under place name = some (.file number mode content) ∧
    Record.entriesOf content = .ok (.ok entries) ∧ Marker.read (.obj entries) = .ok marker

theorem Tells.of_under {other : Machine} (h : Tells machine place name marker)
    (hu : other.under place name = machine.under place name) : Tells other place name marker := by
  unfold Tells at h ⊢
  rw [hu]
  exact h

theorem Stands.tells_of_lasts (h : Stands machine place name marker)
    (joined : marker.key.rejoin = marker.key) (lasts : marker.acquired.Lasts) :
    Tells machine place name marker := by
  obtain ⟨number, mode, content, hu, printed⟩ := h
  obtain ⟨entries, he, hm⟩ := Marker.exists_entries joined lasts printed
  exact ⟨number, mode, content, entries, hu, he, hm⟩

theorem Stands.tells (h : Stands machine place name marker) (sound : marker.IsSound) :
    Tells machine place name marker :=
  h.tells_of_lasts sound.key (.of_universal (.inr sound.acquired))

/-- A marker that was written has a holder that can be written. -/
theorem Stands.short (h : Stands machine place name marker) :
    marker.holder.natAbs < Json.digitLimit := by
  obtain ⟨_, _, content, -, printed⟩ := h
  exact (Marker.fits_toJson _).mp (Record.octetsOf_eq_ok.mp printed).1

theorem readMarkerAt_tells (g : Ground machine folder place) (hn : Tree.IsFileName name)
    (h : Tells machine place name marker) :
    (readMarkerAt (folder.child name)).exec machine = (.ok (some marker), machine) := by
  obtain ⟨number, mode, content, entries, hu, he, hm⟩ := h
  have hr := Record.read_exec g hn (.inr ⟨number, mode, content, hu, he⟩)
  rw [hu] at hr
  refine (Action.exec_bind_ok hr).trans ?_
  simp only [Option.isSome_some, if_true, hm]
  rfl

theorem readMarkerAt_stands (g : Ground machine folder place) (hn : Tree.IsFileName name)
    (h : Stands machine place name marker) (sound : marker.IsSound) :
    (readMarkerAt (folder.child name)).exec machine = (.ok (some marker), machine) :=
  readMarkerAt_tells g hn (h.tells sound)

/-- Once the way is clear the marker is written. -/
theorem finish_exec (marker : Marker) (hf : lock.folder = folder) (g : Ground machine folder place)
    (hn : Tree.IsFileName name) (free : machine.under place name = none)
    (short : marker.holder.natAbs < Json.digitLimit) :
    ∃ after, (lock.finish (folder.child name) marker).exec machine = (.ok marker, after) ∧
      ChangedOnly place (· = name) machine after ∧ Stands after place name marker := by
  obtain ⟨content, printed⟩ := Marker.exists_octets short
  obtain ⟨after, he, only, hu, -⟩ := create_exec hf g hn free printed
  exact ⟨after.tell _, (Action.exec_bind_ok he).trans rfl, only.trans (.of_tree rfl), _, _, content, hu,
    printed⟩

/-- Taking a lock in terms of its last part. -/
theorem acquire_finish (hf : lock.folder = folder) (hk : fileName? key = some name) :
    lock.acquire key = readMarkerAt (folder.child name) >>= fun existing =>
      Action.now >>= fun now => lock.pass key now existing >>= fun _ =>
        clearWay (folder.child name) existing >>= fun _ =>
          lock.finish (folder.child name) ⟨key, now, lock.holder⟩ :=
  acquire_eq (markerPath_eq hf hk)

/-- A lock whose marker file is missing is taken. -/
theorem acquire_absent (hf : lock.folder = folder) (g : Ground machine folder place)
    (hk : fileName? key = some name) (hn : Tree.IsFileName name)
    (short : lock.holder.natAbs < Json.digitLimit) (free : machine.under place name = none) :
    ∃ after, (lock.acquire key).exec machine = (.ok ⟨key, machine.now, lock.holder⟩, after) ∧
      ChangedOnly place (· = name) machine after ∧
      Stands after place name ⟨key, machine.now, lock.holder⟩ := by
  have probe : machine.answer (.probe (folder.child name)) = (.error .absent, machine) := by
    have h := g.answer_probe hn
    rwa [free] at h
  have clear : (clearWay (folder.child name) none).exec machine = (.ok (), machine) := by
    have blocked : (isBlocked (folder.child name) none).exec machine = (.ok false, machine) :=
      (Action.exec_ask_bind probe).trans rfl
    exact (Action.exec_bind_ok blocked).trans rfl
  obtain ⟨after, he, hc⟩ := finish_exec ⟨key, machine.now, lock.holder⟩ hf g hn free short
  refine ⟨after, ?_, hc⟩
  rw [acquire_finish hf hk, Action.exec_bind_ok (readMarkerAt_absent g hn free),
    Action.exec_bind_ok (Action.exec_now machine), pass, pure_bind, Action.exec_bind_ok clear]
  exact he

theorem acquire_told (hf : lock.folder = folder) (g : Ground machine folder place)
    (hk : fileName? key = some name) (hn : Tree.IsFileName name)
    (h : Tells machine place name marker) {age : Duration}
    (ha : marker.age? machine.now = some age) (fresh : lock.isFreshAge age = true) :
    (lock.acquire key).exec machine =
      (.error (.lockHeld key (some marker.holder) (some age)), machine) := by
  have refused : (lock.pass key machine.now (some marker)).exec machine =
      (.error (.lockHeld key (some marker.holder) (some age)), machine) := by
    rw [pass, reclaim, ageOf, ha]
    simp only [pure_bind, fresh, if_true]
    rfl
  rw [acquire_finish hf hk, Action.exec_bind_ok (readMarkerAt_tells g hn h),
    Action.exec_bind_ok (Action.exec_now machine), Action.exec_bind_error refused]

theorem acquire_fresh (hf : lock.folder = folder) (g : Ground machine folder place)
    (hk : fileName? key = some name) (hn : Tree.IsFileName name)
    (h : Stands machine place name marker) (sound : marker.IsSound) {age : Duration}
    (ha : marker.age? machine.now = some age) (fresh : lock.isFreshAge age = true) :
    (lock.acquire key).exec machine =
      (.error (.lockHeld key (some marker.holder) (some age)), machine) :=
  acquire_told hf g hk hn (h.tells sound) ha fresh

theorem acquire_stale (hf : lock.folder = folder) (g : Ground machine folder place)
    (hk : fileName? key = some name) (hn : Tree.IsFileName name)
    (short : lock.holder.natAbs < Json.digitLimit) (h : Stands machine place name marker)
    (sound : marker.IsSound) {age : Duration} (ha : marker.age? machine.now = some age)
    (stale : lock.isFreshAge age = false) :
    ∃ after, (lock.acquire key).exec machine = (.ok ⟨key, machine.now, lock.holder⟩, after) ∧
      ChangedOnly place (· = name) machine after ∧
      Stands after place name ⟨key, machine.now, lock.holder⟩ := by
  obtain ⟨warned, passed, same⟩ : ∃ warned,
      (lock.pass key machine.now (some marker)).exec machine = (.ok (), warned) ∧
        warned = machine.tell (.log ⟨.warning, .lock, "Reclaiming stale lock"⟩) := by
    refine ⟨_, ?_, rfl⟩
    rw [pass, reclaim, ageOf, ha]
    simp only [pure_bind, stale, Bool.false_eq_true, if_false]
    rfl
  have gw : Ground warned folder place := same ▸ ⟨g.leads, g.stands, g.numbered⟩
  have found := readMarkerAt_stands g hn h sound
  obtain ⟨number, mode, content, hu, -⟩ := h
  have hw : warned.under place name = some (.file number mode content) := same ▸ hu
  have cleared : (clearWay (folder.child name) (some marker)).exec warned =
      (.ok (), Ground.without warned place name) := by
    have unlinked := gw.answer_unlink hn
    rw [hw] at unlinked
    have removed : (Record.removeFile (folder.child name)).exec warned =
        (.ok true, Ground.without warned place name) := Action.exec_ask_bind unlinked
    rw [clearWay, isBlocked, Option.isSome_some, if_pos rfl, pure_bind, if_pos rfl,
      Action.exec_bind_ok removed]
    rfl
  have gone : ChangedOnly place (· = name) warned (Ground.without warned place name) := by
    refine Ground.changedOnly_without name fun _ hd => ?_
    rw [hw] at hd
    cases hd
  have gc : Ground (Ground.without warned place name) folder place := gw.exec cleared gone
  obtain ⟨after, he, hc, hs⟩ := finish_exec ⟨key, machine.now, lock.holder⟩ hf gc hn
    (Ground.under_without warned place name) short
  refine ⟨after, ?_, .trans (.of_tree (same ▸ rfl)) (gone.trans hc), hs⟩
  rw [acquire_finish hf hk, Action.exec_bind_ok found,
    Action.exec_bind_ok (Action.exec_now machine), Action.exec_bind_ok passed,
    Action.exec_bind_ok cleared]
  exact he

/-- That nothing keeps a process from a lock: its marker file is missing or tells a stale marker. -/
def IsOpen (lock : Lock) (machine : Machine) (place : Location) (name : String) : Prop :=
  machine.under place name = none ∨ ∃ marker age, Stands machine place name marker ∧
    marker.IsSound ∧ marker.age? machine.now = some age ∧ lock.isFreshAge age = false

theorem acquire_open (hf : lock.folder = folder) (g : Ground machine folder place)
    (hk : fileName? key = some name) (hn : Tree.IsFileName name)
    (short : lock.holder.natAbs < Json.digitLimit) (h : lock.IsOpen machine place name) :
    ∃ after, (lock.acquire key).exec machine = (.ok ⟨key, machine.now, lock.holder⟩, after) ∧
      ChangedOnly place (· = name) machine after ∧
      Stands after place name ⟨key, machine.now, lock.holder⟩ := by
  rcases h with free | ⟨marker, age, stands, sound, ha, stale⟩
  · exact acquire_absent hf g hk hn short free
  · exact acquire_stale hf g hk hn short stands sound ha stale

/-- A lock whose marker file would have too long a name cannot be taken. -/
theorem acquire_long (hf : lock.folder = folder) (g : Ground machine folder place)
    (hk : fileName? key = some name) (hd : name ≠ "..") (long : Tree.isTooLong name = true) :
    ∃ after, (lock.acquire key).exec machine = (.error (.file .nameTooLong), after) ∧
      after.tree = machine.tree := by
  have located := Tree.locate_long g.leads g.stands hd long
  have unread : machine.answer (.readFile (folder.child name)) = (.error .nameTooLong, machine) := by
    have h : machine.tree.read machine.directory (folder.child name) = .error .nameTooLong := by
      rw [Tree.read, Tree.find, located]
      rfl
    rw [Machine.answer, h]
  have unprobed (other : Machine) (tree : other.tree = machine.tree)
      (directory : other.directory = machine.directory) :
      other.answer (.probe (folder.child name)) = (.error .nameTooLong, other) := by
    have h : other.tree.kind other.directory (folder.child name) = .error .nameTooLong := by
      rw [tree, directory, Tree.kind, Tree.find, located]
      rfl
    rw [Machine.answer, h]
  obtain ⟨warned, hw, tree, directory⟩ : ∃ warned, (readMarkerAt (folder.child name)).exec machine =
      (.ok none, warned) ∧ warned.tree = machine.tree ∧ warned.directory = machine.directory :=
    ⟨machine.tell (.log ⟨.warning, .records, Record.Defect.message .unreadable⟩),
      (Action.exec_bind_ok (Action.exec_ask_bind unread)).trans rfl, rfl, rfl⟩
  have blocked : (isBlocked (folder.child name) none).exec warned =
      (.error (.file .nameTooLong), warned) :=
    (Action.exec_ask_bind (unprobed warned tree directory)).trans rfl
  refine ⟨warned, ?_, tree⟩
  rw [acquire_finish hf hk, Action.exec_bind_ok hw, Action.exec_bind_ok (Action.exec_now warned), pass,
    pure_bind, clearWay, bind_assoc, Action.exec_bind_error blocked]

theorem acquire_nameless (hk : fileName? key = none) :
    (lock.acquire key).exec machine = (.error (.unencodable (.utf8 key)), machine) := by
  have hp : lock.markerPath key = throw (.unencodable (.utf8 key)) := by
    rw [markerPath, hk]
  rw [acquire, hp]
  rfl

/-- Giving back a lock whose marker is told by its file removes the file. -/
theorem release_told (hf : lock.folder = folder) (g : Ground machine folder place)
    (hk : fileName? marker.key = some name) (hn : Tree.IsFileName name)
    (h : Tells machine place name marker) :
    ∃ after, (lock.release marker).exec machine = (.ok (), after) ∧
      ChangedOnly place (· = name) machine after ∧ after.under place name = none := by
  have found := readMarkerAt_tells g hn h
  obtain ⟨number, mode, content, entries, hu, -⟩ := h
  have unlinked := g.answer_unlink hn
  rw [hu] at unlinked
  have own : isReclaimed marker (some marker) = false := by
    simp [isReclaimed, Marker.sameHolding, Moment.sameTime, Moment.comparable]
  have gone : ChangedOnly place (· = name) machine (Ground.without machine place name) := by
    refine Ground.changedOnly_without name fun _ hd => ?_
    rw [hu] at hd
    nomatch hd
  refine ⟨(Ground.without machine place name).tell (.log ⟨.debug, .lock, "Released lock"⟩), ?_, gone.trans (.of_tree rfl),
    Ground.under_without machine place name⟩
  rw [release_eq (markerPath_eq hf hk), Action.exec_bind_ok found, own, giveBack, if_neg (by simp),
    Action.exec_ask_bind unlinked]
  rfl

/-- Giving back the lock of one's own marker removes it. -/
theorem release_own (hf : lock.folder = folder) (g : Ground machine folder place)
    (hk : fileName? marker.key = some name) (hn : Tree.IsFileName name)
    (h : Stands machine place name marker) (sound : marker.IsSound) :
    ∃ after, (lock.release marker).exec machine = (.ok (), after) ∧
      ChangedOnly place (· = name) machine after ∧ after.under place name = none :=
  release_told hf g hk hn (h.tells sound)

/-- Giving back a lock whose marker file is missing changes nothing. -/
theorem release_absent (hf : lock.folder = folder) (g : Ground machine folder place)
    (hk : fileName? marker.key = some name) (hn : Tree.IsFileName name)
    (free : machine.under place name = none) :
    ∃ after, (lock.release marker).exec machine = (.ok (), after) ∧ after.tree = machine.tree := by
  have unlinked := g.answer_unlink hn
  rw [free] at unlinked
  refine ⟨machine.tell (.log ⟨.debug, .lock, "Released lock"⟩), ?_, rfl⟩
  rw [release_eq (markerPath_eq hf hk), Action.exec_bind_ok (readMarkerAt_absent g hn free),
    isReclaimed, giveBack, if_neg (by simp), Action.exec_ask_bind unlinked]
  rfl

/-- Giving back a lock that somebody else has reclaimed changes nothing. -/
theorem release_reclaimed (hf : lock.folder = folder) (g : Ground machine folder place)
    (hk : fileName? marker.key = some name) (hn : Tree.IsFileName name) {current : Marker}
    (h : Stands machine place name current) (sound : current.IsSound)
    (other : current.sameHolding marker = false) :
    ∃ after, (lock.release marker).exec machine = (.ok (), after) ∧ after.tree = machine.tree := by
  have reclaimed : isReclaimed marker (some current) = true := by rw [isReclaimed, other]; rfl
  refine ⟨machine.tell (.log ⟨.warning, .lock,
    "Lock was reclaimed by another process; leaving its marker in place"⟩), ?_, rfl⟩
  rw [release_eq (markerPath_eq hf hk), Action.exec_bind_ok (readMarkerAt_stands g hn h sound),
    reclaimed, giveBack, if_pos rfl]
  rfl

end SessionKeeper.Lock
