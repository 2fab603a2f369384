import SessionKeeper.Proofs.Lock.Hold
import SessionKeeper.Proofs.Session.Listed
import SessionKeeper.Proofs.Text.Order

/-!
# Marker files that can be judged

In a folder where everything that has the name of a marker file is the marker file of a key, with no
integer that is too long, no more levels than there is room for and no time without an offset, each
of these files can be judged: it holds no marker, or one with a holder and an age. Then taking a
lock that has such a file is decided by what is seen in it, and the listing of the marker files
meets each of them once, in order.
-/
namespace SessionKeeper

namespace Numeral

variable {cs ds : List Char}

theorem length_splitSign_le (cs : List Char) : (splitSign cs).2.length ≤ cs.length := by
  unfold splitSign
  split <;> simp

theorem length_dropZeroFraction_le (cs : List Char) : (dropZeroFraction cs).length ≤ cs.length := by
  unfold dropZeroFraction
  dsimp only
  split
  · split
    · exact (List.takeWhile_prefix _).length_le
    · exact le_rfl
  · exact le_rfl

theorem length_of_dropUnderscores? (h : dropUnderscores? cs = some ds) : ds.length ≤ cs.length := by
  unfold dropUnderscores? at h
  split at h
  · obtain rfl := Option.some.inj h
    exact List.length_filter_le _ _
  · cases h

theorem lt_of_digits? {n : Nat} (h : digits? ds = some n) (short : ds.length ≤ 4300) :
    n < Json.digitLimit := by
  unfold digits? at h
  split at h
  · rename_i digits
    obtain rfl := Option.some.inj h
    rw [Bool.and_eq_true, List.all_eq_true] at digits
    exact Json.ofDigits_lt_digitLimit digits.2 short
  · cases h

/-- An integer that is read from a text is not too long to be printed. -/
theorem natAbs_of_int? {n : Int} (h : int? cs = .ok n) : n.natAbs < Json.digitLimit := by
  rw [int?] at h
  dsimp only at h
  split at h
  · cases h
  rename_i short
  split at h
  · rename_i m read
    obtain ⟨kept, underscored, spelled⟩ := Option.bind_eq_some_iff.mp read
    have small := lt_of_digits? spelled (by
      have := length_splitSign_le (trim cs)
      have := length_dropZeroFraction_le (splitSign (trim cs)).2
      have := length_of_dropUnderscores? underscored
      omega)
    obtain rfl := Except.ok.inj h
    split
    · rwa [Int.natAbs_neg, Int.natAbs_natCast]
    · rwa [Int.natAbs_natCast]
  · cases h

end Numeral

/-- An integer that is read from a value is not too long to be printed if the value is not. -/
theorem Schema.natAbs_of_integer {value : Json} {n : Int} {room : Nat}
    (fits : value.fits room = true) (h : integer value = .ok n) : n.natAbs < Json.digitLimit := by
  have word : Numeral.wordLimit < Json.digitLimit := by decide +kernel
  cases value with
  | int m =>
    obtain rfl := Except.ok.inj h
    exact Json.fits_int.mp fits
  | bool b =>
    obtain rfl := Except.ok.inj h
    have small : (if b then 1 else 0 : Int).natAbs < Numeral.wordLimit := by
      cases b <;> decide
    exact small.trans word
  | float x =>
    rw [integer] at h
    split at h
    · cases h
    · rename_i m d _
      split at h
      · cases h
      · rename_i whole
        split at h
        · cases h
        · rename_i small
          obtain rfl := Except.ok.inj h
          have divides : (d : Int) ∣ m := Int.dvd_of_emod_eq_zero (by simpa using whole)
          rw [Int.natAbs_ediv_of_dvd divides, Int.natAbs_natCast]
          omega
  | str t =>
    rw [integer] at h
    split at h
    · cases h
    · split at h
      · rename_i read
        obtain rfl := Except.ok.inj h
        exact Numeral.natAbs_of_int? read
      · cases h
      · cases h
  | null => cases h
  | arr items => cases h
  | obj members => cases h

variable [Runtime]

namespace Lock

/-- The holder that a file tells is not too long to be printed. -/
theorem Marker.holder_short {octets : Octets} {members : Assoc Text Json} {marker : Marker}
    (spelled : Record.Spells octets members) (told : Marker.read (.obj members) = .ok marker) :
    marker.holder.natAbs < Json.digitLimit := by
  have fits := (Record.isRegular_of_entriesOf (Record.entriesOf_eq_found.mpr spelled)).fits
  obtain ⟨members, ⟨⟩, h⟩ := Schema.bind_eq_ok.mp told
  obtain ⟨⟨key, acquired, holder⟩, parts, last⟩ := Schema.bind_eq_ok.mp h
  simp only [Schema.both_eq_ok] at parts
  obtain ⟨value, there, read⟩ := Schema.required_eq_ok parts.2.2
  rw [← Except.ok.inj last]
  rw [Json.fits_obj] at fits
  exact Schema.natAbs_of_integer (fits _ (Assoc.mem_of_value? there)) read

instance (lock : Lock) : DecidablePred lock.GivesWay
  | .ok none => .isTrue trivial
  | .ok (some (_, age)) => inferInstanceAs (Decidable (lock.isFreshAge age = false))
  | .error _ => .isFalse id

variable {machine : Machine} {lock : Lock} {place : Location} {name : String} {key : Text}

omit [Runtime] in
/-- With nobody to put anything in the way, an operation runs alone. -/
theorem execWith_nobody {α : Type} (path : Path) (action : Action α) (machine : Machine) :
    action.execWith (intrusion path none) machine = action.exec machine := by
  have nobody : intrusion path none = fun _ _ after => after := by
    funext before request after
    cases request <;> rfl
  rw [nobody]
  rfl

/-- Where a file can be judged, taking the lock succeeds if what is seen gives way, and otherwise a
fresh marker refuses it. -/
theorem acquire_of_sight (named : fileName? key = some name)
    (short : lock.holder.natAbs < Json.digitLimit) (numbered : machine.tree.Numbered)
    {octets : Octets} {seen : Option (Int × Duration)}
    (stored : machine.tree.read machine.directory (lock.folder.child name) = .ok octets)
    (told : sight machine.now (.ok octets) = .ok seen) :
    (lock.GivesWay (.ok seen) ↔
        ∃ marker after, (lock.acquire key).exec machine = (.ok marker, after)) ∧
      (¬ lock.GivesWay (.ok seen) ↔ ∃ holder age after,
        (lock.acquire key).exec machine = (.error (.lockHeld key holder age), after)) := by
  obtain ⟨outcome, after, ends, decision⟩ : ∃ outcome after,
      (lock.acquire key).execWith (intrusion (lock.folder.child name) none) machine =
        (outcome, after) ∧ Decision lock key name (some octets) none machine outcome after :=
    acquire_filled named short numbered stored
  rw [execWith_nobody] at ends
  rw [ends]
  cases decision with
  | taken clear =>
    have gives : lock.GivesWay (.ok seen) := told ▸ clear octets rfl
    exact ⟨⟨fun _ => ⟨_, _, rfl⟩, fun _ => gives⟩, ⟨fun stays => absurd gives stays, nofun⟩⟩
  | @held _ _ holder age there sees fresh =>
    obtain rfl := Option.some.inj there
    obtain rfl := Except.ok.inj (told.symm.trans sees)
    have stays : ¬ lock.isFreshAge age = false := by simp [fresh]
    exact ⟨⟨fun gives => absurd gives stays, nofun⟩, ⟨fun _ => ⟨_, _, _, rfl⟩, fun _ => stays⟩⟩
  | raced _ _ came => cases came
  | stopped there sees =>
    obtain rfl := Option.some.inj there
    cases told.symm.trans sees
  | racedStopped _ _ came => cases came
  | long empty => cases empty

theorem acquire_of_stopped (named : fileName? key = some name)
    (short : lock.holder.natAbs < Json.digitLimit) (numbered : machine.tree.Numbered)
    {octets : Octets} {limit : Limit}
    (stored : machine.tree.read machine.directory (lock.folder.child name) = .ok octets)
    (stops : Record.StopsAt octets limit) :
    ∃ after, (lock.acquire key).exec machine = (.error (.beyond limit), after) := by
  have told : sight machine.now (.ok octets) = .error (.beyond limit) := by
    rw [sight, found_eq_error.mpr ⟨octets, limit, rfl, stops, rfl⟩]
    rfl
  obtain ⟨outcome, after, ends, decision⟩ : ∃ outcome after,
      (lock.acquire key).execWith (intrusion (lock.folder.child name) none) machine =
        (outcome, after) ∧ Decision lock key name (some octets) none machine outcome after :=
    acquire_filled named short numbered stored
  rw [execWith_nobody] at ends
  refine ⟨after, ends.trans (congrArg (·, after) ?_)⟩
  cases decision with
  | taken clear =>
    have gives := clear octets rfl
    rw [told] at gives
    exact gives.elim
  | held there sees =>
    obtain rfl := Option.some.inj there
    cases told.symm.trans sees
  | raced _ _ came => cases came
  | stopped there sees =>
    obtain rfl := Option.some.inj there
    rw [Except.error.inj (told.symm.trans sees)]
  | racedStopped _ _ came => cases came
  | long empty => cases empty

/-- That a lock has its folder at a place where every marker file can be judged: whatever has the
name of one is a file that can be read, goes beyond no limit and tells no time without an offset.
The clock has one, too. -/
structure IsOrderly (lock : Lock) (machine : Machine) (place : Location) : Prop where
  ground : Ground machine lock.folder place
  placed : machine.now.offset.isSome = true
  judged : ∀ name, isMarkerName name = true → machine.under place name ≠ none → ∃ octets,
    machine.tree.read machine.directory (lock.folder.child name) = .ok octets ∧
      (∀ limit, ¬ Record.StopsAt octets limit) ∧
      ∀ members marker, Record.Spells octets members → Marker.read (.obj members) = .ok marker →
        marker.acquired.offset.isSome = true

theorem IsOrderly.exists_sight (orderly : lock.IsOrderly machine place)
    (marked : isMarkerName name = true) (there : machine.under place name ≠ none) :
    ∃ octets seen, machine.tree.read machine.directory (lock.folder.child name) = .ok octets ∧
      sight machine.now (.ok octets) = .ok seen := by
  obtain ⟨octets, stored, whole, placed⟩ := orderly.judged name marked there
  obtain ⟨current, told⟩ := exists_found (.ok octets) fun _ limit same =>
    Except.ok.inj same ▸ whole limit
  cases current with
  | none => exact ⟨octets, none, stored, by rw [sight, told]; rfl⟩
  | some marker =>
    obtain ⟨members, spelled, read⟩ := found_eq_some.mp told
    have offset := placed members marker spelled read
    have comparable : machine.now.comparable marker.acquired = true := by
      rw [Moment.comparable, orderly.placed, offset]
      rfl
    cases old : marker.age? machine.now with
    | none =>
      rw [Marker.age?_eq_none.mp old] at comparable
      cases comparable
    | some age =>
      refine ⟨octets, some (marker.holder, age), stored, ?_⟩
      simp only [sight, told, bind, Except.bind, aged, old]

omit [Runtime] in
theorem isMarkerName_of_fileName? {key : Text} (named : fileName? key = some name) :
    isMarkerName name = true := by
  obtain ⟨spelled, -, rfl⟩ := Option.map_eq_some_iff.mp named
  have parts : ("lock-" ++ spelled ++ ".json").toList =
      "lock-".toList ++ spelled.toList ++ ".json".toList := by
    rw [String.toList_append, String.toList_append]
  rw [isMarkerName, parts]
  simp only [Bool.and_eq_true, decide_eq_true_eq, List.isPrefixOf_iff_prefix,
    List.isSuffixOf_iff_suffix]
  refine ⟨⟨?_, ?_⟩, List.suffix_append _ _⟩
  · simp only [List.length_append]
    omega
  · rw [List.append_assoc]
    exact List.prefix_append _ _

/-- The names of the marker files at a place, in order. -/
def markerNames (machine : Machine) (place : Location) : List String :=
  ((machine.tree.namesBelow place).filter isMarkerName).mergeSort fun a b =>
    Text.precedes (Text.ofString a) (Text.ofString b)

omit [Runtime] in
theorem mem_markerNames : name ∈ markerNames machine place ↔
    isMarkerName name = true ∧ machine.under place name ≠ none := by
  rw [markerNames, List.mem_mergeSort, List.mem_filter, Tree.mem_namesBelow, and_comm]
  rfl

omit [Runtime] in
/-- They stand in order. -/
theorem pairwise_markerNames (machine : Machine) (place : Location) :
    (markerNames machine place).Pairwise fun a b =>
      Text.precedes (Text.ofString a) (Text.ofString b) = true :=
  List.pairwise_mergeSort
    (fun a b c => Text.precedes_trans (Text.ofString a) (Text.ofString b) (Text.ofString c))
    (fun a b => Text.precedes_total (Text.ofString a) (Text.ofString b)) _

omit [Runtime] in
/-- Each is told once where no location has two nodes. -/
theorem nodup_markerNames (distinct : machine.tree.nodes.keys.Nodup) (place : Location) :
    (markerNames machine place).Nodup :=
  (List.mergeSort_perm _ _).nodup_iff.mpr ((Tree.nodup_namesBelow distinct place).filter _)

/-- That a row of the listing is about a marker file and tells what was found in it. -/
def Lists (lock : Lock) (machine : Machine) (name : String) (row : Path × Option Marker) : Prop :=
  row.1 = lock.folder.child name ∧
    found (machine.tree.read machine.directory (lock.folder.child name)) = .ok row.2

/-- The row of a marker file in the listing, if it can be read. -/
def rowOf (lock : Lock) (machine : Machine) (name : String) :
    Except Failure (Path × Option Marker) :=
  (found (machine.tree.read machine.directory (lock.folder.child name))).map fun current =>
    (lock.folder.child name, current)

theorem rowOf_eq_ok {row : Path × Option Marker} :
    lock.rowOf machine name = .ok row ↔ lock.Lists machine name row := by
  obtain ⟨path, current⟩ := row
  rw [rowOf, Lists]
  rcases found (machine.tree.read machine.directory (lock.folder.child name)) with failure | other
  · exact ⟨nofun, fun h => nomatch h.2⟩
  · simp [Except.map, eq_comm]

theorem rowOf_eq_error {failure : Failure} : lock.rowOf machine name = .error failure ↔
    found (machine.tree.read machine.directory (lock.folder.child name)) = .error failure := by
  rw [rowOf]
  rcases found (machine.tree.read machine.directory (lock.folder.child name)) with other | current <;>
    simp [Except.map]

/-- The rows of all marker files at a place, in order. -/
def listing (lock : Lock) (machine : Machine) (place : Location) :
    Except Failure (List (Path × Option Marker)) :=
  (markerNames machine place).mapM (lock.rowOf machine)

/-- Whatever is in a folder that stands, listing its marker files tells what is found in them. -/
theorem markers_exec (g : Ground machine lock.folder place) :
    ∃ after, lock.markers.exec machine = (lock.listing machine place, after) ∧
      machine.Quiet after := by
  have step (name : String) (between : Machine) (quiet : machine.Quiet between) : ∃ after,
      (do
        let path := lock.folder.child name
        return (path, ← readMarkerAt path) : Action _).exec between =
          (lock.rowOf machine name, after) ∧ machine.Quiet after := by
    obtain ⟨after, read, still⟩ := readMarkerAt_exec (lock.folder.child name) between
    rw [quiet.tree, quiet.circumstances.directory] at read
    refine ⟨after, ?_, quiet.trans still⟩
    rw [rowOf]
    rcases told : found (machine.tree.read machine.directory (lock.folder.child name)) with
      failure | current <;> rw [told] at read
    · exact Action.exec_bind_error read
    · exact Action.exec_bind_ok read
  obtain ⟨after, ran, quiet⟩ := Action.exec_mapM_told step (markerNames machine place) machine
    (Machine.Quiet.refl machine)
  refine ⟨after, ?_, quiet⟩
  rw [markers, Action.exec_bind_ok g.isThere_exec, if_pos rfl,
    Action.exec_ask_bind g.answer_listDirectory]
  exact ran

/-- A listing that returns has one row for each marker file, in order. -/
theorem listing_eq_ok {rows : List (Path × Option Marker)} : lock.listing machine place = .ok rows ↔
    List.Forall₂ (lock.Lists machine) (markerNames machine place) rows := by
  rw [listing, mapM_eq_ok]
  simp only [rowOf_eq_ok]

/-- That one of the marker files goes beyond a limit. -/
def MeetsLimit (lock : Lock) (machine : Machine) (place : Location) : Prop :=
  ∃ name ∈ markerNames machine place, ∃ octets limit,
    machine.tree.read machine.directory (lock.folder.child name) = .ok octets ∧
      Record.StopsAt octets limit

/-- Otherwise the marker files are listed. -/
theorem exists_listing (whole : ¬ lock.MeetsLimit machine place) :
    ∃ rows, lock.listing machine place = .ok rows := by
  rcases told : lock.listing machine place with failure | rows
  · obtain ⟨name, there, failed⟩ := exists_of_mapM_error told
    obtain ⟨octets, limit, stored, stops, -⟩ := found_eq_error.mp (rowOf_eq_error.mp failed)
    exact absurd ⟨name, there, octets, limit, stored, stops⟩ whole
  · exact ⟨rows, rfl⟩

/-- Such a file keeps all of them from being listed. -/
theorem listing_of_meetsLimit (meets : lock.MeetsLimit machine place) :
    ∃ limit, lock.listing machine place = .error (.beyond limit) := by
  obtain ⟨name, there, octets, limit, stored, stops⟩ := meets
  rcases told : lock.listing machine place with failure | rows
  · obtain ⟨_, -, failed⟩ := exists_of_mapM_error told
    obtain ⟨_, limit, -, -, rfl⟩ := found_eq_error.mp (rowOf_eq_error.mp failed)
    exact ⟨limit, rfl⟩
  · obtain ⟨row, -, -, read⟩ := exists_of_forall₂ (listing_eq_ok.mp told) there
    rw [found_eq_error.mpr ⟨octets, limit, stored, stops, rfl⟩] at read
    cases read

/-- Where every marker file can be judged they can be listed. -/
theorem IsOrderly.markers_exec (orderly : lock.IsOrderly machine place) :
    ∃ rows after, lock.markers.exec machine = (.ok rows, after) ∧
      List.Forall₂ (lock.Lists machine) (markerNames machine place) rows ∧
        machine.Quiet after := by
  obtain ⟨rows, listed⟩ : ∃ rows, lock.listing machine place = .ok rows := by
    refine exists_listing ?_
    rintro ⟨name, there, octets, limit, stored, stops⟩
    obtain ⟨marked, stands⟩ := mem_markerNames.mp there
    obtain ⟨content, read, whole, -⟩ := orderly.judged name marked stands
    obtain rfl := Except.ok.inj (stored.symm.trans read)
    exact whole limit stops
  obtain ⟨after, ran, quiet⟩ := Lock.markers_exec orderly.ground
  exact ⟨rows, after, listed ▸ ran, listing_eq_ok.mp listed, quiet⟩

end Lock

end SessionKeeper
