import SessionKeeper.Proofs.Lock.Judged
import SessionKeeper.Proofs.Record.Aimed
import SessionKeeper.Proofs.Record.Alike

/-!
# Locks of different keys

A key can be read off the name of its marker file, so different keys have different marker files
next to each other. Taking the lock of one key and giving it back touches no file of another name,
and what comes of it is the same whatever stands in the place of another marker. Once it was taken,
its marker is listed among the marker files, unless an integer that is too long or a nesting that
is too deep keeps one of the others, and with it all of them, from being listed.
-/
namespace SessionKeeper.Lock

variable {lock : Lock} {key other : Text} {name hidden : String} {marker : Marker}
  {place : Location} {machine before after m n : Machine}

/-- The name of the marker file of a key that is spelled in characters. -/
def spelledName (cs : List Char) : String :=
  "lock-" ++ String.ofList (Percent.encodeOctets (Utf8.encodeChars cs)) ++ ".json"

theorem fileName?_ofChars (cs : List Char) : fileName? (.ofChars cs) = some (spelledName cs) := by
  rw [fileName?, Percent.encode?_ofChars]
  rfl

/-- That a name is one for the marker file of a key: it is flat and looks like one, and the key can
be read off it. -/
structure IsNameOf (name : String) (key : Text) : Prop where
  flat : '/' ∉ name.toList
  marked : isMarkerName name = true
  told : ∃ spelled, name = "lock-" ++ spelled ++ ".json" ∧ Percent.decode? spelled = some key

theorem isNameOf_spelledName (cs : List Char) : IsNameOf (spelledName cs) (.ofChars cs) where
  flat := by
    simp only [spelledName, String.toList_append, String.toList_ofList, List.mem_append, not_or]
    exact ⟨⟨by decide, Percent.slash_notMem _⟩, by decide⟩
  marked := isMarkerName_of_fileName? (fileName?_ofChars cs)
  told := ⟨_, rfl, Percent.decode?_of_encode? (Percent.encode?_ofChars cs)⟩

/-- Keys that are spelled differently have different marker files. -/
theorem spelledName_injective : Function.Injective spelledName := by
  intro cs ds same
  have keys := fileName?_injective (fileName?_ofChars cs) (same ▸ fileName?_ofChars ds)
  simpa using congrArg Text.toChars? keys

/-- That what stands under a name, in whatever folder, is as it was, but for folders that were made
where nothing stood. -/
def Untouched (hidden : String) (before after : Machine) : Prop :=
  ∀ l : Location, l.getLast? = some hidden → after.tree.node? l = before.tree.node? l ∨
    before.tree.node? l = none ∧ ∃ mode, after.tree.node? l = some (.directory mode)

theorem Untouched.of_touchedOnly (apart : name ≠ hidden) (h : TouchedOnly name before after) :
    Untouched hidden before after := by
  refine fun l last => h l fun same => apart ?_
  rw [last] at same
  exact (Option.some.inj same).symm

/-- That a section changes no files and stays in the folder it is in. -/
def IsStill {ε α : Type} (body : Machine → Except (Failure ⊕ ε) α × Machine) : Prop :=
  ∀ machine, (body machine).2.tree = machine.tree ∧ (body machine).2.directory = machine.directory

section

variable [Runtime]

section Still

variable {ε α : Type} {body : Machine → Except (Failure ⊕ ε) α × Machine} {course : Course}

omit [Runtime] in
/-- Where a section changed no files a folder still stands. -/
theorem IsStill.ground (still : IsStill body) (g : Ground machine lock.folder place) :
    Ground (body machine).2 lock.folder place := by
  obtain ⟨tree, directory⟩ := still machine
  refine ⟨?_, tree ▸ g.stands, tree ▸ g.numbered⟩
  rw [tree, directory]
  exact g.leads

/-- A section under a lock touches nothing but the marker file if it changes no files itself. -/
theorem holding_touches (named : fileName? key = some name) (still : IsStill body)
    (numbered : course.machine.tree.Numbered) :
    TouchedOnly name course.machine ((lock.holding key (Conduct.ofBody body)).exec course).2.machine := by
  have taken : TouchedOnly name course.machine ((lock.acquire key).exec course.machine).2 :=
    acquire_touches named course.machine numbered
  rw [Conduct.exec_holding]
  rcases he : (lock.acquire key).exec course.machine with ⟨failure | marker, held⟩ <;> rw [he] at taken
  · exact taken
  · -- the key of the marker is that of the section, so one file is touched before and after it
    have tree := (still held).1
    have ran : TouchedOnly name held (body held).2 := .of_grown (tree ▸ .refl _)
    have own : fileName? marker.key = some name := by rw [key_of_acquire rfl named he, named]
    have back : TouchedOnly name (body held).2 ((lock.release marker).exec (body held).2).2 :=
      release_touches own (body held).2 (tree ▸ numbered.of_exec_eq he)
    have whole := (taken.trans ran).trans back
    dsimp only
    rcases given : (lock.release marker).exec (body held).2 with ⟨failure | _, last⟩ <;>
      rw [given] at whole <;> exact whole

/-- A section under a lock that was taken ends as it does by itself if it changes no files. -/
theorem holding_still (named : fileName? key = some name) (still : IsStill body)
    (numbered : course.machine.tree.Numbered) {held : Machine}
    (taken : (lock.acquire key).exec course.machine = (.ok marker, held)) :
    ((lock.holding key (Conduct.ofBody body)).exec course).1 = (body held).1 := by
  have file := isFileName_of_acquire named taken
  obtain ⟨place, g, stands⟩ := acquire_stands rfl numbered named file marker held taken
  have own : fileName? marker.key = some name := by rw [key_of_acquire rfl named taken, named]
  have there : Stands (body held).2 place name marker :=
    stands.of_under (by rw [Machine.under, Machine.under, (still held).1])
  obtain ⟨last, released, -⟩ := release_returns rfl (still.ground g) own file there
  rw [Conduct.exec_holding, taken]
  dsimp only
  rw [released]

theorem holding_refused {failure : Failure}
    (refused : (lock.acquire key).exec course.machine = (.error failure, after)) :
    (lock.holding key (Conduct.ofBody body)).exec course =
      (.error (.inl failure), { course with machine := after }) := by
  rw [Conduct.exec_holding, refused]

end Still

/-- That the lock of a key leaves what stands under the name of another marker file alone. -/
structure LeavesAlone (lock : Lock) (key : Text) (hidden : String) (machine : Machine) : Prop where
  acquire : Untouched hidden machine ((lock.acquire key).exec machine).2
  release (marker : Marker) (own : marker.key = key) :
    Untouched hidden machine ((lock.release marker).exec machine).2
  holding {ε α : Type} (body : Machine → Except (Failure ⊕ ε) α × Machine) (still : IsStill body)
    (runs : ℕ) : Untouched hidden machine
      ((lock.holding key (Conduct.ofBody body)).exec ⟨machine, runs⟩).2.machine

theorem leavesAlone_of_fileName? (named : fileName? key = some name) (apart : name ≠ hidden)
    (numbered : machine.tree.Numbered) : lock.LeavesAlone key hidden machine where
  acquire := .of_touchedOnly apart (acquire_touches named machine numbered)
  release _ own := .of_touchedOnly apart (release_touches (own ▸ named) machine numbered)
  holding _ still _ := .of_touchedOnly apart (holding_touches named still numbered)

/-- That a folder stands on two machines that differ in the file under one name at most. Where the
folder does not stand there is no such file to differ in. -/
abbrev DifferAt (folder : Path) (place : Location) (hidden : String) (m n : Machine) : Prop :=
  Machine.Beside folder place hidden (fun _ _ => True) m n

/-- That the lock of a key goes the same way on two machines, and a section under it ends as it does
by itself on two machines that differ no more. -/
structure GoesAlike (lock : Lock) (key : Text) (place : Location) (hidden : String)
    (m n : Machine) : Prop where
  acquire : ((lock.acquire key).exec m).1 = ((lock.acquire key).exec n).1
  release (marker : Marker) (own : marker.key = key) :
    ((lock.release marker).exec m).1 = ((lock.release marker).exec n).1
  holding {ε α : Type} (body : Machine → Except (Failure ⊕ ε) α × Machine) (still : IsStill body)
    (runs : ℕ) :
    (∃ failure, ∀ machine ∈ [m, n], ∃ after,
      (lock.holding key (Conduct.ofBody body)).exec ⟨machine, runs⟩ =
        (.error (.inl failure), ⟨after, runs⟩)) ∨
    ∃ held held', DifferAt lock.folder place hidden held held' ∧
      ((lock.holding key (Conduct.ofBody body)).exec ⟨m, runs⟩).1 = (body held).1 ∧
      ((lock.holding key (Conduct.ofBody body)).exec ⟨n, runs⟩).1 = (body held').1

omit [Runtime] in
theorem ne_temporaryName (named : fileName? key = some name) (stem : String) (k : ℕ) :
    name ≠ Machine.temporaryName stem k := by
  obtain ⟨spelled, -, rfl⟩ := Option.map_eq_some_iff.mp named
  intro same
  have heads := congrArg (fun s => s.toList.head?) same
  simp [Machine.temporaryName] at heads

omit [Runtime] in
theorem isPlainName_of_fileName? (named : fileName? key = some name)
    (named' : fileName? other = some hidden) (apart : name ≠ hidden)
    (short : Tree.isTooLong name = false) : IsPlainName hidden name where
  file := ⟨ne_up_of_fileName? named, short⟩
  veiled := fun veiled => veiled.elim apart (ne_temporaryName named hidden 0)
  temporary k := (ne_temporaryName named' name k).symm

omit [Runtime] in
/-- Files with names of their own look the same on machines that differ elsewhere. -/
theorem spans_differAt (folder : Path) (place : Location) (hidden : String) :
    (Likeness.beside folder place hidden fun _ _ => True).Spans folder (IsPlainName hidden)
      (Machine.Opened folder place hidden fun _ _ => True) :=
  Likeness.spans_beside fun _ _ _ _ _ _ _ => trivial

section Alike

variable (named : fileName? key = some name) (named' : fileName? other = some hidden)
  (apart : name ≠ hidden) (h : DifferAt lock.folder place hidden m n)
include named named' apart h

/-- The lock of a key is refused on both machines or taken on both, with the same marker. -/
theorem acquire_alike :
    (∃ failure after after', (lock.acquire key).exec m = (.error failure, after) ∧
        (lock.acquire key).exec n = (.error failure, after')) ∨
      ∃ marker held held', (lock.acquire key).exec m = (.ok marker, held) ∧
        (lock.acquire key).exec n = (.ok marker, held') ∧
          DifferAt lock.folder place hidden held held' := by
  cases long : Tree.isTooLong name with
  | true =>
    -- no file is plain under such a name, but neither machine gets as far as looking at one
    have down := ne_up_of_fileName? named
    obtain ⟨_, left, -⟩ := acquire_long rfl h.left named down long
    obtain ⟨_, right, -⟩ := acquire_long rfl h.right named down long
    exact .inl ⟨_, _, _, left, right⟩
  | false =>
    have plain := isPlainName_of_fileName? named named' apart long
    obtain ⟨outcome, alike⟩ := ((spans_differAt lock.folder place hidden).acquire rfl plain named).exec h
    rcases left : (lock.acquire key).exec m with ⟨r, held⟩
    rcases right : (lock.acquire key).exec n with ⟨s, held'⟩
    rw [left, right] at outcome alike
    cases outcome with
    | error failure => exact .inl ⟨failure, held, held', rfl, rfl⟩
    | ok same =>
      obtain ⟨rfl, -⟩ := same
      exact .inr ⟨_, held, held', rfl, rfl, alike⟩

theorem release_alike (own : marker.key = key) :
    ((lock.release marker).exec m).1 = ((lock.release marker).exec n).1 := by
  subst own
  cases long : Tree.isTooLong name with
  | true =>
    -- a marker under such a name cannot be read, and what cannot be read is not given back
    have returns (machine : Machine) (g : Ground machine lock.folder place) :
        ((lock.release marker).exec machine).1 = .ok () := by
      have unread : machine.tree.read machine.directory (lock.folder.child name) =
          .error .nameTooLong := by
        rw [Tree.read, Tree.find, Tree.locate_long g.leads g.stands (ne_up_of_fileName? named) long]
        rfl
      obtain ⟨after, released, -⟩ := release_exec named fun octets count stored => by
        rw [unread] at stored
        cases stored
      rw [released]
    rw [returns m h.left, returns n h.right]
  | false =>
    have plain := isPlainName_of_fileName? named named' apart long
    exact (((spans_differAt lock.folder place hidden).release rfl plain named).exec h).1.eq

theorem goesAlike_of_fileName? : lock.GoesAlike key place hidden m n where
  acquire := by
    rcases acquire_alike named named' apart h with
      ⟨failure, _, _, left, right⟩ | ⟨marker, _, _, left, right, -⟩ <;> rw [left, right]
  release _ own := release_alike named named' apart h own
  holding body still runs := by
    rcases acquire_alike named named' apart h with
      ⟨failure, after, after', left, right⟩ | ⟨marker, held, held', left, right, alike⟩
    · refine .inl ⟨failure, fun machine hm => ?_⟩
      simp only [List.mem_cons, List.not_mem_nil, or_false] at hm
      rcases hm with rfl | rfl
      · exact ⟨after, holding_refused left⟩
      · exact ⟨after', holding_refused right⟩
    · exact .inr ⟨held, held', alike, holding_still named still h.left.numbered left,
        holding_still named still h.right.numbered right⟩

end Alike

theorem found_of_stands (g : Ground machine lock.folder place) (file : Tree.IsFileName name)
    (stands : Stands machine place name marker) (joined : marker.key.rejoin = marker.key)
    (lasts : marker.acquired.Lasts) :
    found (machine.tree.read machine.directory (lock.folder.child name)) = .ok (some marker) := by
  obtain ⟨number, mode, content, entries, there, spelled, told⟩ :=
    stands.tells_of_lasts joined lasts
  have stored : machine.tree.read machine.directory (lock.folder.child name) = .ok content := by
    have read := congrArg Prod.fst (g.answer_readFile file)
    rwa [there] at read
  rw [stored, found_eq_some]
  exact ⟨entries, Record.entriesOf_eq_found.mp spelled, told⟩

/-- That the marker files are listed, with a marker for the file of a name, unless one of them goes
beyond a limit; and then they are not. -/
structure Shows (lock : Lock) (name : String) (marker : Marker) (machine : Machine)
    (place : Location) : Prop where
  ground : Ground machine lock.folder place
  listed : ¬ lock.MeetsLimit machine place → ∃ rows after,
    lock.markers.exec machine = (.ok rows, after) ∧
      (lock.folder.child name, some marker) ∈ rows ∧
      ∀ row ∈ rows, row.1 = lock.folder.child name → row.2 = some marker
  stopped : lock.MeetsLimit machine place → ∃ limit after,
    lock.markers.exec machine = (.error (.beyond limit), after)

/-- A lock that was taken shows its marker, when the time comes back from its text. -/
theorem shows_of_acquire (named : fileName? key = some name) (numbered : machine.tree.Numbered)
    (taken : (lock.acquire key).exec machine = (.ok marker, after)) (lasts : machine.now.Lasts) :
    ∃ place, lock.Shows name marker after place := by
  have file := isFileName_of_acquire named taken
  obtain ⟨place, g, stands⟩ := acquire_stands rfl numbered named file marker after taken
  have own := marker_of_acquire rfl named taken
  have told := found_of_stands g file stands (own ▸ rejoin_of_fileName? named) (own ▸ lasts)
  obtain ⟨last, listing, -⟩ := markers_exec g
  refine ⟨place, g, fun whole => ?_, fun meets => ?_⟩
  · obtain ⟨rows, listed⟩ := exists_listing whole
    have lists := listing_eq_ok.mp listed
    have tells (row : Path × Option Marker) (at_path : row.1 = lock.folder.child name)
        (read : found (after.tree.read after.directory row.1) = .ok row.2) : row.2 = some marker := by
      rw [at_path, told] at read
      exact (Except.ok.inj read).symm
    refine ⟨rows, last, listed ▸ listing, ?_, fun row there at_path => ?_⟩
    · obtain ⟨number, mode, content, there, -⟩ := stands
      have one_of_them : name ∈ markerNames after place :=
        mem_markerNames.mpr ⟨isMarkerName_of_fileName? named, there ▸ Option.some_ne_none _⟩
      obtain ⟨⟨path, current⟩, hr, rfl, read⟩ := exists_of_forall₂ lists one_of_them
      obtain rfl : current = some marker := tells (_, current) rfl read
      exact hr
    · obtain ⟨_, -, about, read⟩ := exists_of_forall₂ lists.flip there
      exact tells row at_path (about ▸ read)
  · obtain ⟨limit, failed⟩ := listing_of_meetsLimit meets
    exact ⟨limit, last, failed ▸ listing⟩

/-- Locks of different keys, spelled in characters, have nothing to do with each other. The marker
files lie next to each other under names that are different and tell the keys. Whatever state the
files are in, taking the lock of one key, giving it back or running a section under it that changes
no files touches nothing under the name of the other marker file; and what comes of it is the same
whatever stands there. When the lock was taken, at a time that comes back from its text, its marker
is listed, unless an integer that is too long or a nesting that is too deep in another marker file
keeps all of them from being listed. -/
theorem keys_are_independent (lock : Lock) {cs ds : List Char} (apart : cs ≠ ds)
    {machine : Machine} (numbered : machine.tree.Numbered) :
    (∀ spelled, lock.markerPath (.ofChars spelled) =
        pure (lock.folder.child (spelledName spelled)) ∧
      IsNameOf (spelledName spelled) (.ofChars spelled)) ∧
    lock.folder.child (spelledName cs) ≠ lock.folder.child (spelledName ds) ∧
    lock.LeavesAlone (.ofChars cs) (spelledName ds) machine ∧
    (∀ place other, DifferAt lock.folder place (spelledName ds) machine other →
      lock.GoesAlike (.ofChars cs) place (spelledName ds) machine other) ∧
    ∀ marker after, (lock.acquire (.ofChars cs)).exec machine = (.ok marker, after) →
      machine.now.Lasts → ∃ place, lock.Shows (spelledName cs) marker after place := by
  have named := fileName?_ofChars cs
  have named' := fileName?_ofChars ds
  have names : spelledName cs ≠ spelledName ds := spelledName_injective.ne apart
  refine ⟨fun spelled => ⟨markerPath_eq rfl (fileName?_ofChars spelled),
    isNameOf_spelledName spelled⟩, fun same => names ?_, leavesAlone_of_fileName? named names numbered,
    fun place other differ => goesAlike_of_fileName? named named' names differ,
    fun marker after taken lasts => shows_of_acquire named numbered taken lasts⟩
  simpa only [Path.name_child] using congrArg Path.name same

/-- Next to another marker file a lock is taken, and whether the marker files can be listed then
depends on what the other one holds. -/
theorem acquire_beside_marked (octets : Octets) : ∃ after,
    (homeLock.acquire "a").exec (marked octets) = (.ok ⟨"a", Machine.bare.now, 7⟩, after) ∧
      Ground after homeLock.folder ["home"] ∧
      (homeLock.MeetsLimit after ["home"] ↔ ∃ limit, Record.StopsAt octets limit) := by
  have before : Ground (marked octets) homeLock.folder ["home"] :=
    Machine.ground_bare.kept_withFile _ octets (Machine.under_bare _)
  have named : fileName? "a" = some "lock-a.json" := by decide +kernel
  have file : Tree.IsFileName "lock-a.json" := ⟨by decide, by decide⟩
  have free : (marked octets).under ["home"] "lock-a.json" = none := rfl
  obtain ⟨after, taken, only, stands⟩ := acquire_absent rfl before named file
    (by decide +kernel : homeLock.holder.natAbs < Json.digitLimit) free
  have g : Ground after homeLock.folder ["home"] := before.exec taken only
  have other : after.tree.read after.directory (homeLock.folder.child "lock-job.json") =
      .ok octets := by
    have short : Tree.IsFileName "lock-job.json" := ⟨by decide, by decide⟩
    have read := congrArg Prod.fst (g.answer_readFile short)
    rwa [only.under (by decide)] at read
  refine ⟨after, taken, g, fun ⟨name, there, content, limit, stored, stops⟩ => ?_,
    fun ⟨limit, stops⟩ => ⟨"lock-job.json", mem_markerNames.mpr ⟨by decide, ?_⟩, octets, limit,
      other, stops⟩⟩
  · by_cases own : name = "lock-a.json"
    · have told := found_of_stands g file stands rfl (.of_universal (.inr rfl))
      rw [← own, stored, found_eq_error.mpr ⟨content, limit, rfl, stops, rfl⟩] at told
      cases told
    · by_cases others : name = "lock-job.json"
      · rw [others, other] at stored
        exact ⟨limit, Except.ok.inj stored ▸ stops⟩
      · have nothing : after.under ["home"] name = none := by
          rw [only.under own, Machine.under, marked, Ground.node?_withFile, if_neg]
          · exact Machine.under_bare name
          · simpa using Ne.symm others
        exact absurd nothing (mem_markerNames.mp there).2
  · rw [only.under (by decide)]
    exact Option.some_ne_none _

end

open scoped SessionKeeper.Runtime in
/-- Next to an empty marker file a lock is taken as without it, the empty file stays, and the
marker is listed. -/
theorem lock_is_taken_beside_empty : ∃ after rows last,
    (homeLock.acquire "a").exec (marked []) = (.ok ⟨"a", Machine.bare.now, 7⟩, after) ∧
      ((homeLock.acquire "a").exec .bare).1 = .ok ⟨"a", Machine.bare.now, 7⟩ ∧
      after.tree.node? ["home", "lock-job.json"] =
        (marked []).tree.node? ["home", "lock-job.json"] ∧
      homeLock.markers.exec after = (.ok rows, last) ∧
      (homeLock.folder.child "lock-a.json", some ⟨"a", Machine.bare.now, 7⟩) ∈ rows := by
  obtain ⟨after, taken, g, meets⟩ := acquire_beside_marked []
  have apart : "a".toList ≠ "job".toList := by decide
  have here : spelledName "a".toList = "lock-a.json" := by decide +kernel
  have there : spelledName "job".toList = "lock-job.json" := by decide +kernel
  have differ : DifferAt homeLock.folder ["home"] "lock-job.json" (marked []) .bare := by
    refine ⟨Machine.ground_bare.kept_withFile _ [] (Machine.under_bare _), Machine.ground_bare,
      ⟨rfl, rfl, rfl, rfl, rfl, rfl, rfl, fun l other => ?_⟩, trivial⟩
    rw [marked, Ground.node?_withFile, if_neg (Ne.symm other)]
  have lasts : (marked []).now.Lasts := .of_universal (.inr rfl)
  obtain ⟨-, -, alone, alike, shows⟩ :=
    keys_are_independent homeLock apart (marked_numbered [])
  rw [there] at alone alike
  rw [here] at shows
  have taken' : (homeLock.acquire (.ofChars "a".toList)).exec (marked []) = _ := taken
  have untouched := alone.acquire ["home", "lock-job.json"] rfl
  have same := (alike _ _ differ).acquire
  rw [taken'] at untouched same
  obtain ⟨place, shown⟩ := shows _ after taken lasts
  obtain rfl : place = ["home"] := Except.ok.inj (shown.ground.leads.symm.trans g.leads)
  obtain ⟨rows, last, listed, mem, -⟩ := shown.listed fun hidden => by
    obtain ⟨limit, stops⟩ := meets.mp hidden
    rw [← Record.entriesOf_eq_error, entriesOf_nil] at stops
    cases stops
  refine ⟨after, rows, last, taken, same.symm, ?_, listed, mem⟩
  rcases untouched with kept | ⟨free, -⟩
  · exact kept
  · cases free

open scoped SessionKeeper.Runtime in
/-- An integer that is too long in another marker file keeps the marker of a lock that was taken
from being listed. -/
theorem long_integer_hides_markers :
    ¬ ∀ (machine : Machine) (lock : Lock) (cs : List Char) (marker : Marker) (after : Machine),
      machine.tree.Numbered → machine.now.Lasts →
        (lock.acquire (.ofChars cs)).exec machine = (.ok marker, after) →
          ∃ rows last, lock.markers.exec after = (.ok rows, last) := by
  intro claim
  obtain ⟨limit, stops⟩ := Record.exists_stopsAt
  obtain ⟨after, taken, g, meets⟩ := acquire_beside_marked
    (Utf8.encodeChars ('1' :: List.replicate 4300 '1'))
  obtain ⟨rows, last, listed⟩ := claim _ homeLock "a".toList _ after (marked_numbered _)
    (.of_universal (.inr rfl)) taken
  obtain ⟨last', ran, -⟩ := markers_exec g
  obtain ⟨_, failed⟩ := listing_of_meetsLimit (meets.mpr ⟨limit, stops⟩)
  rw [failed, listed] at ran
  cases ran

end SessionKeeper.Lock
