import SessionKeeper.Proofs.Json.Limits
import SessionKeeper.Proofs.Record.Served

/-!
# What any content is read as

Reading a record file tells three contents apart: there is no file, the file is an object in UTF-8,
and anything else, a directory included, which counts as no entries. Some content is not read at
all: an integer with too many digits stops the reading, and so do more levels than there is room
for, and with it every operation of the store. Of any other content the store finds what it was read
as, does nothing to remove a key that it has not, and puts a value into what it found, or into
nothing where the content was of no use.
-/
namespace SessionKeeper.Record

section

variable [Runtime]

/-- That octets are a text in UTF-8 that is an object with these members. -/
def Spells (octets : Octets) (members : Assoc Text Json) : Prop :=
  ∃ cs, octets = Utf8.encodeChars cs ∧ Json.parse (Text.ofChars cs) = .ok (.obj members)

/-- That octets are a text in UTF-8 of which the reading stops at a limit, which it goes beyond. -/
def StopsAt (octets : Octets) (limit : Limit) : Prop :=
  ∃ cs, octets = Utf8.encodeChars cs ∧
    Json.parse (Text.ofChars cs) = .error (.beyond limit) ∧
    Json.Exceeds (Runtime.reads + 1) (Text.ofChars cs) limit

/-- What an object is found as. -/
def Content.found (members : Assoc Text Json) : Content := ⟨.found, members⟩

theorem entriesOf_eq_found {octets : Octets} {members : Assoc Text Json} :
    entriesOf octets = .ok (.ok members) ↔ Spells octets members := by
  constructor
  · intro h
    rw [entriesOf] at h
    split at h
    · cases Except.ok.inj h
    · rename_i cs decoded
      split at h
      · cases h
      · cases Except.ok.inj h
      · rename_i found parsed
        obtain rfl := Except.ok.inj (Except.ok.inj h)
        exact ⟨cs, Utf8.decode_eq_ok_iff.mp decoded, parsed⟩
      · cases Except.ok.inj h
  · rintro ⟨cs, rfl, parsed⟩
    rw [entriesOf, Utf8.decode_encodeChars]
    simp only [parsed]

theorem entriesOf_eq_error {octets : Octets} {limit : Limit} :
    entriesOf octets = .error limit ↔ StopsAt octets limit := by
  constructor
  · intro h
    rw [entriesOf] at h
    split at h
    · cases h
    · rename_i cs decoded
      split at h
      · rename_i found parsed
        obtain rfl := Except.error.inj h
        have exceeds := Json.exceeds_of_parse (Json.isChars_ofChars cs) parsed
        exact ⟨cs, Utf8.decode_eq_ok_iff.mp decoded, parsed, exceeds⟩
      · cases h
      · cases h
      · cases h
  · rintro ⟨cs, rfl, parsed, -⟩
    rw [entriesOf, Utf8.decode_encodeChars]
    simp only [parsed]

/-- What stands at a path, told by how it is read. -/
inductive Reads (path : Path) (machine : Machine) : Except Failure Content → Prop where
  | absent (gone : machine.tree.read machine.directory path = .error .absent) :
    Reads path machine (.ok .absent)
  | found {octets : Octets} {members : Assoc Text Json}
    (stored : machine.tree.read machine.directory path = .ok octets)
    (spelled : Spells octets members) : Reads path machine (.ok (.found members))
  | stopped {octets : Octets} {limit : Limit}
    (stored : machine.tree.read machine.directory path = .ok octets)
    (stops : StopsAt octets limit) : Reads path machine (.error (.beyond limit))
  | recovered (there : machine.tree.read machine.directory path ≠ .error .absent)
    (other : ∀ octets, machine.tree.read machine.directory path = .ok octets →
      (∀ members, ¬ Spells octets members) ∧ ∀ limit, ¬ StopsAt octets limit) :
    Reads path machine (.ok .recovered)

/-- What is read without a fault is told apart by its octets. -/
theorem reads_of_octets {path : Path} {machine : Machine} {octets : Octets}
    (stored : machine.tree.read machine.directory path = .ok octets) :
    Reads path machine ((read path).exec machine).1 := by
  have asked : machine.answer (.readFile path) = (.ok octets, machine) :=
    congrArg (·, machine) stored
  rw [read, Action.exec_ask_bind asked]
  dsimp only
  rcases told : entriesOf octets with limit | defect | members
  · exact .stopped stored (entriesOf_eq_error.mp told)
  · have there : machine.tree.read machine.directory path ≠ .error .absent := by
      rw [stored]
      exact fun h => by cases h
    refine .recovered there fun other h => ?_
    obtain rfl := Except.ok.inj (stored.symm.trans h)
    refine ⟨fun members spelled => ?_, fun limit stops => ?_⟩
    · rw [entriesOf_eq_found.mpr spelled] at told
      cases Except.ok.inj told
    · rw [entriesOf_eq_error.mpr stops] at told
      cases told
  · exact .found stored (entriesOf_eq_found.mp told)

/-- A path that cannot be read is taken for no file when there is none, and is recovered from
otherwise. -/
theorem reads_of_fault {path : Path} {machine : Machine} {fault : FileFault}
    (stored : machine.tree.read machine.directory path = .error fault) :
    Reads path machine ((read path).exec machine).1 := by
  have asked : machine.answer (.readFile path) = (.error fault, machine) :=
    congrArg (·, machine) stored
  rw [read, Action.exec_ask_bind asked]
  by_cases gone : fault = .absent
  · subst gone
    exact .absent stored
  · have there : machine.tree.read machine.directory path ≠ .error .absent := by
      rw [stored]
      exact fun h => gone (Except.error.inj h)
    have recovers := Reads.recovered there fun octets h => by
      rw [stored] at h
      cases h
    cases fault <;> first | exact recovers | exact absurd rfl gone

theorem Reads.exec_eq {path : Path} {machine : Machine} {outcome : Except Failure Content}
    (h : Reads path machine outcome) : ((read path).exec machine).1 = outcome := by
  have asked : machine.answer (.readFile path) =
      (machine.tree.read machine.directory path, machine) := rfl
  rw [read, Action.exec_ask_bind asked]
  cases h with
  | absent gone => rw [gone]; rfl
  | found stored spelled =>
    rw [stored]
    simp only [entriesOf_eq_found.mpr spelled]
    rfl
  | stopped stored stops =>
    rw [stored]
    simp only [entriesOf_eq_error.mpr stops]
    rfl
  | recovered there other =>
    rcases stored : machine.tree.read machine.directory path with fault | octets
    · rw [stored] at there
      cases fault <;> first | rfl | exact absurd rfl there
    · obtain ⟨noObject, noStop⟩ := other octets stored
      dsimp only
      rcases told : entriesOf octets with limit | defect | members
      · exact absurd (entriesOf_eq_error.mp told) (noStop limit)
      · rfl
      · exact absurd (entriesOf_eq_found.mp told) (noObject members)

/-- What a path is read as is what stands there, and nothing else. -/
theorem read_reads (path : Path) (machine : Machine) (outcome : Except Failure Content) :
    ((read path).exec machine).1 = outcome ↔ Reads path machine outcome := by
  refine ⟨?_, Reads.exec_eq⟩
  rintro rfl
  rcases stored : machine.tree.read machine.directory path with fault | octets
  · exact reads_of_fault stored
  · exact reads_of_octets stored

/-- How a store works over a file that is read as some content: it looks up what was read, it does
nothing to remove a key that is not among that, and where a file can be written at all it puts every
value that can be printed into what was read. If there is room to read it, surrogate pairs in names
and texts come back joined, and where there are none to join, the value is found as it was given. -/
structure WorksOver (store : Store) (machine : Machine) (content : Content) (key : Text) :
    Prop where
  get? : ∃ after, (store.get? key).exec machine = (.ok (content.entries.value? key), after) ∧
    machine.Quiet after
  remove : content.entries.has key = false →
    ∃ after, (store.remove key).exec machine = (.ok (), after) ∧ machine.Quiet after
  put : ∀ folder name, store.path = folder.child name → name ≠ ".." → machine.tree.Numbered →
    Roomy machine folder name → ∀ value : Json, value.isCanonical = true →
      value.fits Runtime.prints = true →
        ∃ after, (store.put key value).exec machine = (.ok (), after) ∧
          (value.fits Runtime.reads = true →
            Reads store.path after (.ok (.found (content.entries.put key.rejoin value.reread)))) ∧
          (key.IsJoined → value.IsRegular Runtime.reads →
            Reads store.path after (.ok (.found (content.entries.put key value))))

/-- How a store stops whose file cannot be read: every operation fails alike and changes nothing. -/
structure StopsWith (store : Store) (machine : Machine) (failure : Failure) (key : Text) :
    Prop where
  get? : (store.get? key).exec machine = (.error failure, machine)
  remove : (store.remove key).exec machine = (.error failure, machine)
  put : ∀ value, (store.put key value).exec machine = (.error failure, machine)

variable {store : Store} {path : Path} {machine : Machine} {content : Content} {failure : Failure}

theorem entries_of_stopped (h : Reads store.path machine (.error failure)) :
    store.entries.exec machine = (.error failure, machine) := by
  cases h with
  | @stopped octets limit stored stops =>
    have asked : machine.answer (.readFile store.path) = (.ok octets, machine) :=
      Prod.ext stored rfl
    rw [Store.entries, Store.load, read, bind_assoc, Action.exec_ask_bind asked]
    simp only [entriesOf_eq_error.mpr stops]
    rfl

theorem stopsWith_of_reads (h : Reads store.path machine (.error failure)) (key : Text) :
    StopsWith store machine failure key :=
  have stopped := entries_of_stopped h
  ⟨Action.exec_bind_error stopped, Action.exec_bind_error stopped,
    fun _ => Action.exec_bind_error stopped⟩

theorem entries_of_reads (h : Reads path machine (.ok content)) :
    ∃ after, (Store.entries ⟨path⟩).exec machine = (.ok content.entries, after) ∧
      machine.Quiet after := by
  have told := (read_reads path machine _).mpr h
  have ended : (read path).exec machine = (.ok content, ((read path).exec machine).2) :=
    Prod.ext told rfl
  exact ⟨_, (Action.exec_bind_ok ended).trans rfl, .of_passive (read_passive path) machine⟩

/-- Where an object is found, nothing is noted. -/
theorem entries_of_found {members : Assoc Text Json}
    (h : Reads path machine (.ok (.found members))) :
    (Store.entries ⟨path⟩).exec machine = (.ok members, machine) := by
  cases h with
  | @found octets _ stored spelled =>
    have asked : machine.answer (.readFile path) = (.ok octets, machine) := Prod.ext stored rfl
    rw [Store.entries, Store.load, read, bind_assoc, Action.exec_ask_bind asked]
    simp only [entriesOf_eq_found.mpr spelled]
    rfl

theorem isRegular_of_reads (h : Reads path machine (.ok content)) :
    (Json.obj content.entries).IsRegular (Runtime.reads + 1) := by
  cases h with
  | absent => exact ⟨rfl, rfl⟩
  | found stored spelled => exact isRegular_of_entriesOf (entriesOf_eq_found.mpr spelled)
  | recovered => exact ⟨rfl, rfl⟩

theorem isLegible_of_reads (h : Reads store.path machine (.ok content)) :
    store.IsLegible machine := by
  intro octets limit stored stops
  have refused := (read_reads store.path machine _).mpr
    (.stopped stored (entriesOf_eq_error.mp stops))
  rw [(read_reads store.path machine _).mpr h] at refused
  cases refused

/-- What a store makes of its file is what the file is read as. -/
theorem reads_of_entriesOn (h : store.entriesOn machine ≠ []) :
    Reads store.path machine (.ok (.found (store.entriesOn machine))) := by
  rw [Store.entriesOn] at h ⊢
  split at h
  · rename_i octets stored
    split at h
    · rename_i members told
      exact .found stored (entriesOf_eq_found.mp told)
    · exact absurd rfl h
  · exact absurd rfl h

theorem worksOver_of_reads (h : Reads path machine (.ok content)) (key : Text) :
    WorksOver ⟨path⟩ machine content key := by
  obtain ⟨between, asked, quiet⟩ := entries_of_reads h
  refine ⟨⟨between, (Action.exec_bind_ok asked).trans rfl, quiet⟩, fun missing => ?_, ?_⟩
  · refine ⟨between, (Action.exec_bind_ok asked).trans ?_, quiet⟩
    rw [if_neg (by rw [missing]; nofun)]
    rfl
  · rintro folder name at_path down numbered roomy value canonical fits
    obtain rfl : path = folder.child name := at_path
    have serves : Store.Serves folder name machine := ⟨numbered, roomy, isLegible_of_reads h⟩
    have regular := isRegular_of_reads h
    obtain ⟨after, written, told⟩ := (serves.of_quiet quiet).write_reread_exec down
      (Json.isCanonical_put regular.canonical key canonical)
      ((Json.fits_put (Json.fits_prints regular.fits) key value).trans fits)
    have reread : Assoc.ofPairs (Json.rereadMembers (content.entries.put key value)) =
        content.entries.put key.rejoin value.reread :=
      Json.obj.inj (Json.reread_put regular key value)
    have found (fits : value.fits Runtime.reads = true) : Reads (folder.child name) after
        (.ok (.found (content.entries.put key.rejoin value.reread))) := by
      have told := (told ((Json.fits_put regular.fits key value).trans fits)).2.1
      rw [reread] at told
      have filled : Store.entriesOn ⟨folder.child name⟩ after ≠ [] :=
        told ▸ Assoc.put_ne_nil _ _ _
      rw [← told]
      exact reads_of_entriesOn filled
    refine ⟨after, (Action.exec_bind_ok asked).trans ?_, found, fun joined settled => ?_⟩
    · rw [Store.replace, if_neg (by simp [Assoc.put_ne_nil])]
      exact written
    · have found := found settled.fits
      rwa [Text.rejoin_of_isJoined joined, settled.reread_eq] at found

end

/-- A machine with a file that holds so many digits. -/
def counted (count : Nat) : Machine :=
  Ground.withFile .bare ["home"] "digits.json" privateMode
    (Utf8.encodeChars (List.replicate count '1'))

theorem counted_read (count : Nat) :
    (counted count).tree.read (counted count).directory ⟨"/", ["home", "digits.json"]⟩ =
      .ok (Utf8.encodeChars (List.replicate count '1')) := rfl

/-- The reading of one digit too many stops at the end of them. -/
theorem exists_stopsAt [Runtime] : ∃ limit,
    StopsAt (Utf8.encodeChars ('1' :: List.replicate 4300 '1')) limit := by
  have digits : ∀ c ∈ '1' :: List.replicate 4300 '1', c.isDigit = true := fun c hc => by
    rw [← List.replicate_succ] at hc
    rw [(List.mem_replicate.mp hc).2]
    rfl
  have refused := Json.parseWithin_long (Runtime.reads + 1) digits (by decide)
    (by rw [List.length_cons, List.length_replicate]; decide)
  exact ⟨_, _, rfl, refused, Json.exceeds_of_parse (Json.isChars_ofChars _) refused⟩

end SessionKeeper.Record
