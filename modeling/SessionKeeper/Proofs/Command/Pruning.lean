import SessionKeeper.Proofs.Command.Report
import SessionKeeper.Proofs.Lock.Judged

/-!
# Pruning markers

Whether a marker file may be removed is decided in three places: when its lock is taken, when markers
are pruned and when they are listed. They decide alike, on every file that can be judged, since all
of them come down to what is seen in it. So pruning removes just the files that would keep nobody
from a lock, the list calls just these stale, and pruning once more finds nothing to remove.
-/
namespace SessionKeeper

section

variable [Runtime]

namespace Lock

variable {before between after start machine : Machine} {lock : Lock} {place : Location}
  {names more : List String} {name : String}

/-- That some files at a place are gone and nothing else was touched. -/
structure Pruned (place : Location) (names : List String) (before after : Machine) : Prop where
  gone : ∀ name ∈ names, after.under place name = none
  only : ChangedOnly place (· ∈ names) before after
  keychain : after.keychain = before.keychain
  circumstances : before.SameCircumstances after

namespace Pruned

omit [Runtime] in
theorem of_quiet (quiet : before.Quiet after) : Pruned place [] before after :=
  ⟨nofun, .of_tree quiet.tree, quiet.keychain, quiet.circumstances⟩

omit [Runtime] in
theorem under (pruned : Pruned place names before after) (other : name ∉ names) :
    after.under place name = before.under place name := pruned.only.under other

omit [Runtime] in
theorem trans (h : Pruned place names before between) (k : Pruned place more between after) :
    Pruned place (names ++ more) before after where
  gone name hn := by
    by_cases later : name ∈ more
    · exact k.gone name later
    · rw [k.under later]
      exact h.gone name ((List.mem_append.mp hn).resolve_right later)
  only := (h.only.mono fun _ => List.mem_append_left more).trans
    (k.only.mono fun _ => List.mem_append_right names)
  keychain := k.keychain.trans h.keychain
  circumstances := h.circumstances.trans k.circumstances

omit [Runtime] in
/-- What stands anywhere stood there before. -/
theorem under_of_ne_none (pruned : Pruned place names before after)
    (there : after.under place name ≠ none) :
    name ∉ names ∧ after.under place name = before.under place name := by
  have kept : name ∉ names := fun gone => there (pruned.gone name gone)
  exact ⟨kept, pruned.under kept⟩

end Pruned

/-- The names of the marker files that are stale or hold no marker, in order. -/
def uselessNames (lock : Lock) (machine : Machine) (place : Location) : List String :=
  (markerNames machine place).filter fun name =>
    decide (lock.GivesWay (sightAt machine (lock.folder.child name)))

theorem mem_uselessNames : name ∈ lock.uselessNames machine place ↔
    name ∈ markerNames machine place ∧
      lock.GivesWay (sightAt machine (lock.folder.child name)) := by
  rw [uselessNames, List.mem_filter, decide_eq_true_iff]

omit [Runtime] in
/-- Removing a file that stands or is gone already. -/
theorem Pruned.of_removeFile {folder : Path} (g : Ground machine folder place)
    (hn : Tree.IsFileName name) (plain : ∀ mode, machine.under place name ≠ some (.directory mode)) :
    ∃ existed after, (Record.removeFile (folder.child name)).exec machine = (.ok existed, after) ∧
      Pruned place [name] machine after := by
  have unlinked := g.answer_unlink hn
  cases there : machine.under place name with
  | none =>
    rw [there] at unlinked
    refine ⟨false, machine, (Action.exec_ask_bind unlinked).trans rfl, ?_⟩
    refine ⟨fun other ho => ?_, .refl machine, rfl, .refl machine⟩
    rw [List.mem_singleton.mp ho, there]
  | some node =>
    cases node with
    | directory mode => exact absurd there (plain mode)
    | file number mode content =>
      rw [there] at unlinked
      refine ⟨true, _, (Action.exec_ask_bind unlinked).trans rfl, ?_⟩
      refine ⟨fun other ho => ?_, ?_, rfl, ⟨rfl, rfl, rfl, rfl, rfl, rfl, rfl⟩⟩
      · rw [List.mem_singleton.mp ho, Ground.under_without]
      · exact (Ground.changedOnly_without name plain).mono fun _ same => List.mem_singleton.mpr same

theorem IsOrderly.exists_file (orderly : lock.IsOrderly machine place)
    (marked : name ∈ markerNames machine place) : Tree.IsFileName name ∧
      ∃ number mode octets, machine.under place name = some (.file number mode octets) := by
  obtain ⟨looks, there⟩ := mem_markerNames.mp marked
  obtain ⟨octets, stored, -⟩ := orderly.judged name looks there
  obtain ⟨⟨l, node⟩, found, content⟩ := exists_of_bind_ok stored
  have hn := Tree.isFileName_of_locate (Tree.locate_of_find found)
    (isOpenName_of_isMarkerName looks).1
  refine ⟨hn, ?_⟩
  have stands := orderly.ground.find hn
  cases under : machine.under place name with
  | none => exact absurd under there
  | some other =>
    rw [under, found] at stands
    obtain ⟨-, rfl⟩ := Prod.mk.inj (Except.ok.inj stands)
    cases node with
    | directory mode => cases content
    | file number mode octets => exact ⟨number, mode, octets, rfl⟩

end Lock

namespace Command.Diagnosis

open Lock (Pruned Lists GivesWay sightAt markerNames uselessNames)

variable {start machine : Machine} {lock : Lock} {place : Location} {names : List String}
  {name : String}

/-- Pruning takes away the file of a row, or nothing, as what is seen in it says. -/
theorem pruneLock_exec {row : Path × Option Lock.Marker} {seen : Option (Int × Duration)}
    (lists : lock.Lists start name row)
    (told : sightAt start (lock.folder.child name) = .ok seen) (now : machine.now = start.now) :
    (pruneLock lock row.1 row.2).exec machine =
      if lock.GivesWay (.ok seen) then
        (do
          let _ ← Record.removeFile (lock.folder.child name)
          return some name : Action (Option String)).exec machine
      else (.ok none, machine) := by
  obtain ⟨path, marker⟩ := row
  obtain ⟨rfl, found⟩ := lists
  rw [sightAt, Lock.sight, found] at told
  cases marker with
  | none =>
    obtain rfl := Except.ok.inj told
    have gives : lock.GivesWay (.ok none) := trivial
    rw [if_pos gives]
    simp only [pruneLock, pure_bind, if_true, Path.name_child]
  | some marker =>
    cases old : marker.age? machine.now with
    | none =>
      simp only [bind, Except.bind, Lock.aged, ← now, old] at told
      cases told
    | some age =>
      simp only [bind, Except.bind, Lock.aged, ← now, old] at told
      obtain rfl := Except.ok.inj told
      rw [pruneLock]
      dsimp only
      rw [Action.exec_bind_ok (Lock.isStale_exec old), Path.name_child]
      show _ = ite (lock.isFreshAge age = false) _ _
      cases lock.isFreshAge age <;> rfl

/-- Pruning goes through the rows and takes away each file that gives way. -/
theorem pruneRows_exec (orderly : lock.IsOrderly start place)
    {rows : List (Path × Option Lock.Marker)} (lists : List.Forall₂ (lock.Lists start) names rows)
    (marked : ∀ name ∈ names, name ∈ markerNames start place) {gone : List String}
    (g : Ground machine lock.folder place) (pruned : Pruned place gone start machine) :
    ∃ after, (rows.mapM fun row => pruneLock lock row.1 row.2).exec machine =
      (.ok (names.map fun name =>
        if lock.GivesWay (sightAt start (lock.folder.child name)) then some name else none), after) ∧
      Pruned place (gone ++ names.filter fun name =>
        decide (lock.GivesWay (sightAt start (lock.folder.child name)))) start after := by
  -- The machine moves from row to row, while what each row is judged by is what stood at the start.
  -- So what is gone is carried along, and `pruned` ties the machine to the start.
  induction lists generalizing gone machine with
  | nil => exact ⟨machine, rfl, by simpa using pruned⟩
  | @cons name row names rows listed rest ih =>
    have here := marked name List.mem_cons_self
    obtain ⟨hn, number, mode, octets, file⟩ := orderly.exists_file here
    obtain ⟨_, seen, stored, told⟩ := orderly.exists_sight (Lock.mem_markerNames.mp here).1
      (Lock.mem_markerNames.mp here).2
    have sight : sightAt start (lock.folder.child name) = .ok seen := by rw [sightAt, stored, told]
    have step := pruneLock_exec listed sight pruned.circumstances.now
    have others : ∀ other ∈ names, other ∈ markerNames start place :=
      fun other ho => marked other (List.mem_cons_of_mem _ ho)
    rw [← sight] at step
    by_cases gives : lock.GivesWay (sightAt start (lock.folder.child name))
    · rw [if_pos gives] at step
      have plain (mode : Nat) : machine.under place name ≠ some (.directory mode) := by
        intro stands
        have kept := (pruned.under_of_ne_none (stands ▸ Option.some_ne_none _)).2
        rw [stands, file] at kept
        cases kept
      obtain ⟨existed, between, removed, only⟩ := Pruned.of_removeFile g hn plain
      rw [Action.exec_bind_ok removed] at step
      obtain ⟨after, ran, last⟩ := ih others (g.exec removed only.only) (pruned.trans only)
      refine ⟨after, ?_, ?_⟩
      · rw [List.mapM_cons, Action.exec_bind_ok step, Action.exec_bind_ok ran, List.map_cons,
          if_pos gives]
        rfl
      · simpa [gives] using last
    · rw [if_neg gives] at step
      obtain ⟨after, ran, last⟩ := ih others g pruned
      refine ⟨after, ?_, ?_⟩
      · rw [List.mapM_cons, Action.exec_bind_ok step, Action.exec_bind_ok ran, List.map_cons,
          if_neg gives]
        rfl
      · simpa [gives] using last

def removalReport (removed : List String) : Json := .obj [("removed", .arr (removed.map Json.ofString))]

/-- The rows that were removed are reported by their names, in their order. -/
theorem filterMap_removed (lock : Lock) (start : Machine) (names : List String) :
    (names.map fun name =>
      if lock.GivesWay (sightAt start (lock.folder.child name)) then some name else none).filterMap
        (fun name => name.map Json.ofString) =
      (names.filter fun name =>
        decide (lock.GivesWay (sightAt start (lock.folder.child name)))).map Json.ofString := by
  induction names with
  | nil => rfl
  | cons name rest ih =>
    by_cases gives : lock.GivesWay (sightAt start (lock.folder.child name)) <;>
      simp [gives, ih]

theorem pruneAll_exec (orderly : lock.IsOrderly machine place) :
    ∃ after, (pruneAll lock).exec machine =
      (.ok (removalReport (lock.uselessNames machine place)), after) ∧
        Pruned place (lock.uselessNames machine place) machine after := by
  obtain ⟨rows, between, listed, lists, quiet⟩ := orderly.markers_exec
  obtain ⟨after, ran, pruned⟩ := pruneRows_exec orderly lists (fun _ => id)
    (orderly.ground.of_quiet quiet) (.of_quiet quiet)
  refine ⟨after, ?_, pruned⟩
  rw [pruneAll, Action.exec_bind_ok listed]
  refine (Action.exec_bind_ok ran).trans ?_
  rw [filterMap_removed lock machine]
  rfl

/-- That a row of the list is about a marker file, tells whether it is stale and can be printed. -/
structure IsRow (name : String) (stale : Bool) (row : Json) : Prop where
  file : row.member? "file" = some (.ofString name)
  stale : row.member? "stale" = some (.bool stale)
  fits : row.fits 1 = true

theorem lockRow_exec {row : Path × Option Lock.Marker} {seen : Option (Int × Duration)}
    (lists : lock.Lists start name row)
    (told : sightAt start (lock.folder.child name) = .ok seen) (now : machine.now = start.now) :
    ∃ document, (lockRow lock start.now row.1 row.2).exec machine = (.ok document, machine) ∧
      IsRow name (decide (lock.GivesWay (.ok seen))) document := by
  obtain ⟨path, marker⟩ := row
  obtain ⟨rfl, found⟩ := lists
  rw [sightAt, Lock.sight, found] at told
  cases marker with
  | none =>
    obtain rfl := Except.ok.inj told
    exact ⟨_, rfl, by rw [Path.name_child]; rfl, rfl, rfl⟩
  | some marker =>
    cases old : marker.age? start.now with
    | none =>
      simp only [bind, Except.bind, Lock.aged, old] at told
      cases told
    | some age =>
      simp only [bind, Except.bind, Lock.aged, old] at told
      obtain rfl := Except.ok.inj told
      have aged : (Lock.ageOf marker start.now).exec machine = (.ok age, machine) := by
        rw [Lock.ageOf, old]
        rfl
      rw [lockRow]
      dsimp only
      rw [Action.exec_bind_ok aged, Action.exec_bind_ok (Lock.isStale_exec (now ▸ old)),
        Path.name_child]
      refine ⟨_, rfl, rfl, ?_, ?_⟩
      · have told : (!lock.isFreshAge age) = decide (lock.isFreshAge age = false) := by
          cases lock.isFreshAge age <;> rfl
        exact congrArg (fun stale => some (Json.bool stale)) told
      · have short : marker.holder.natAbs < Json.digitLimit := by
          cases stored : start.tree.read start.directory (lock.folder.child name) with
          | error fault =>
            rw [stored] at found
            cases found
          | ok octets =>
            rw [stored] at found
            obtain ⟨members, spelled, read⟩ := Lock.found_eq_some.mp found
            exact Lock.Marker.holder_short spelled read
        rw [Json.fits_obj]
        simp only [List.mem_cons, List.not_mem_nil, or_false, forall_eq_or_imp, forall_eq]
        exact ⟨Json.fits_str _, Json.fits_str _, Json.fits_int.mpr short, Json.fits_float _,
          Json.fits_bool _⟩

/-- The list has a row for each marker file, in order, that tells whether it may be removed. -/
theorem lockRows_exec (orderly : lock.IsOrderly machine place) :
    ∃ rows after, (lockRows lock).exec machine = (.ok (.arr rows), after) ∧
      List.Forall₂ (fun name row => IsRow name (decide (name ∈ lock.uselessNames machine place)) row)
        (markerNames machine place) rows ∧ machine.Quiet after := by
  obtain ⟨found, between, listed, lists, quiet⟩ := orderly.markers_exec
  have step (name : String) (hn : name ∈ markerNames machine place)
      (row : Path × Option Lock.Marker) (tells : lock.Lists machine name row) (m : Machine)
      (still : machine.Quiet m) : ∃ document after,
        (lockRow lock machine.now row.1 row.2).exec m = (.ok document, after) ∧
          IsRow name (decide (name ∈ lock.uselessNames machine place)) document ∧
            machine.Quiet after := by
    obtain ⟨_, seen, stored, told⟩ := orderly.exists_sight (Lock.mem_markerNames.mp hn).1
      (Lock.mem_markerNames.mp hn).2
    have sight : sightAt machine (lock.folder.child name) = .ok seen := by rw [sightAt, stored, told]
    obtain ⟨document, shown, isRow⟩ := lockRow_exec tells sight still.circumstances.now
    refine ⟨document, m, shown, ?_, still⟩
    have same : decide (lock.GivesWay (.ok seen)) =
        decide (name ∈ lock.uselessNames machine place) := by
      rw [decide_eq_decide, Lock.mem_uselessNames, sight]
      exact ⟨fun gives => ⟨hn, gives⟩, And.right⟩
    rwa [same] at isRow
  obtain ⟨rows, after, ran, all, last⟩ := Action.exec_mapM lists step between quiet
  refine ⟨rows, after, ?_, all, last⟩
  rw [lockRows, Action.exec_bind_ok (Action.exec_now machine), Action.exec_bind_ok listed]
  exact (Action.exec_bind_ok ran).trans rfl

end Command.Diagnosis

namespace Lock

variable {before after machine : Machine} {lock : Lock} {place : Location} {names : List String}
  {name : String}

theorem Pruned.read (pruned : Pruned place names before after)
    (orderly : lock.IsOrderly before place) (numbered : after.tree.Numbered)
    (marked : name ∈ markerNames before place) (kept : name ∉ names) :
    after.tree.read after.directory (lock.folder.child name) =
      before.tree.read before.directory (lock.folder.child name) := by
  obtain ⟨hn, -⟩ := orderly.exists_file marked
  have g : Ground after lock.folder place :=
    orderly.ground.kept pruned.only pruned.circumstances numbered
  have here := congrArg Prod.fst (orderly.ground.answer_readFile hn)
  have there := congrArg Prod.fst (g.answer_readFile hn)
  rw [pruned.under kept] at there
  exact there.trans here.symm

/-- After pruning the other marker files are in order. -/
theorem IsOrderly.of_pruned (orderly : lock.IsOrderly before place)
    (pruned : Pruned place names before after) (numbered : after.tree.Numbered) :
    lock.IsOrderly after place where
  ground := orderly.ground.kept pruned.only pruned.circumstances numbered
  placed := by rw [pruned.circumstances.now, orderly.placed]
  judged name marked there := by
    obtain ⟨kept, same⟩ := pruned.under_of_ne_none there
    rw [same] at there
    rw [pruned.read orderly numbered (mem_markerNames.mpr ⟨marked, there⟩) kept]
    exact orderly.judged name marked there

theorem IsOrderly.of_quiet (orderly : lock.IsOrderly before place) (quiet : before.Quiet after) :
    lock.IsOrderly after place :=
  orderly.of_pruned (.of_quiet quiet) (quiet.tree ▸ orderly.ground.numbered)

omit [Runtime] in
theorem markerNames_of_quiet (quiet : before.Quiet after) :
    markerNames after place = markerNames before place := by
  rw [markerNames, markerNames, quiet.tree]

theorem uselessNames_of_quiet (quiet : before.Quiet after) :
    lock.uselessNames after place = lock.uselessNames before place := by
  have sights (path : Path) : sightAt after path = sightAt before path := by
    rw [sightAt, sightAt, quiet.tree, quiet.circumstances.now, quiet.circumstances.directory]
  rw [uselessNames, uselessNames, markerNames_of_quiet quiet]
  exact List.filter_congr fun name _ => decide_eq_decide.mpr (by rw [sights])

theorem Pruned.uselessNames_eq_nil (orderly : lock.IsOrderly before place)
    (pruned : Pruned place (lock.uselessNames before place) before after)
    (numbered : after.tree.Numbered) : lock.uselessNames after place = [] := by
  rw [List.eq_nil_iff_forall_not_mem]
  intro name useless
  obtain ⟨marked, gives⟩ := mem_uselessNames.mp useless
  obtain ⟨looks, there⟩ := mem_markerNames.mp marked
  obtain ⟨kept, same⟩ := pruned.under_of_ne_none there
  rw [same] at there
  have stood : name ∈ markerNames before place := mem_markerNames.mpr ⟨looks, there⟩
  rw [sightAt, pruned.read orderly numbered stood kept, pruned.circumstances.now] at gives
  exact kept (mem_uselessNames.mpr ⟨stood, gives⟩)

end Lock

namespace Command

open Lock (Pruned sightAt markerNames)
open Diagnosis (removalReport IsRow)

variable {start after : Machine} {lock : Lock} {place : Location} {names : List String}

/-- That no file stands where paths start from. -/
def StartsOutside (machine : Machine) : Prop :=
  ∀ number mode content, machine.tree.node? machine.directory ≠ some (.file number mode content)

omit [Runtime] in
theorem node?_of_pruned (pruned : Pruned place names start after)
    (marked : ∀ name ∈ names, Lock.isMarkerName name = true) (l : Location) (name : String)
    (other : Lock.isMarkerName name = false) :
    after.tree.node? (l ++ [name]) = start.tree.node? (l ++ [name]) := by
  refine pruned.only.elsewhere _ fun gone among same => ?_
  obtain ⟨-, rfl⟩ := List.append_inj' same rfl |>.imp id List.singleton_inj.mp
  rw [marked _ among] at other
  cases other

omit [Runtime] in
/-- The directory that paths start from is none of the files that are removed. -/
theorem node?_directory_of_pruned (pruned : Pruned place names start after)
    (outside : StartsOutside start) :
    after.tree.node? start.directory = start.tree.node? start.directory := by
  by_cases among : ∃ name ∈ names, start.directory = place ++ [name]
  · obtain ⟨name, gone, same⟩ := among
    have left : after.tree.node? start.directory = none := same ▸ pruned.gone name gone
    cases stood : start.tree.node? start.directory with
    | none => exact left
    | some node =>
      cases node with
      | file number mode content => exact absurd stood (outside number mode content)
      | directory mode =>
        have stays := pruned.only.directories _ ((Tree.isDirectory_iff _).mpr ⟨mode, stood⟩)
        rw [Tree.isDirectory, left] at stays
        cases stays
  · exact pruned.only.elsewhere _ fun name gone same => among ⟨name, gone, same⟩

omit [Runtime] in
theorem sameAt_environmentFile (pruned : Pruned place names start after)
    (marked : ∀ name ∈ names, Lock.isMarkerName name = true) (outside : StartsOutside start) :
    SameAt Settings.environmentFile start after := by
  have base := node?_directory_of_pruned pruned outside
  have file : after.tree.node? (start.directory ++ [".env"]) =
      start.tree.node? (start.directory ++ [".env"]) :=
    node?_of_pruned pruned marked _ _ (by decide)
  have path : Settings.environmentFile = ⟨"", [".env"]⟩ := by decide
  have short : Tree.isTooLong ".env" = false := by decide
  have leads (tree : Tree) : tree.locate start.directory ⟨"", [".env"]⟩ =
      tree.walk start.directory [".env"] := rfl
  rw [SameAt, pruned.circumstances.directory, path, Tree.find, Tree.find, leads, leads]
  simp only [Tree.walk, base]
  rcases start.tree.node? start.directory with _ | ⟨_ | _⟩
  · rfl
  · rfl
  · simp only [short, Bool.false_eq_true, if_false, show (".env" = "..") = False by decide]
    simp only [bind, Except.bind, file]

theorem sameAt_metadata (pruned : Pruned place names start after)
    (marked : ∀ name ∈ names, Lock.isMarkerName name = true)
    (orderly : lock.IsOrderly start place) (numbered : after.tree.Numbered) :
    SameAt (lock.folder.child OAuth.ClientMetadata.fileName) start after := by
  have hn : Tree.IsFileName OAuth.ClientMetadata.fileName := ⟨by decide, by decide⟩
  have g : Ground after lock.folder place :=
    orderly.ground.kept pruned.only pruned.circumstances numbered
  have same : after.under place OAuth.ClientMetadata.fileName =
      start.under place OAuth.ClientMetadata.fileName :=
    node?_of_pruned pruned marked _ _ (by decide)
  rw [SameAt, g.find hn, orderly.ground.find hn, same]

theorem sameSources_of_pruned (orderly : lock.IsOrderly start place)
    (outside : StartsOutside start) (pruned : Pruned place names start after)
    (marked : ∀ name ∈ names, Lock.isMarkerName name = true) (numbered : after.tree.Numbered) :
    SameSources [Settings.environmentFile, lock.folder.child OAuth.ClientMetadata.fileName]
      start after := by
  refine ⟨pruned.circumstances, fun path source => ?_⟩
  rcases List.mem_pair.mp source with rfl | rfl
  · exact sameAt_environmentFile pruned marked outside
  · exact sameAt_metadata pruned marked orderly numbered

/-- How the removal of marker files, the list of them and the taking of their locks agree on which
files are useless. -/
structure Agreement (lock : Lock) (start : Machine) (place : Location) (removed : List String) :
    Prop where
  inOrder : removed.Pairwise fun a b => Text.precedes (Text.ofString a) (Text.ofString b) = true
  distinct : start.tree.nodes.keys.Nodup → removed.Nodup
  marked : ∀ name ∈ removed, Lock.isMarkerName name = true ∧ start.under place name ≠ none
  taken : ∀ key name, Lock.fileName? key = some name → start.under place name ≠ none →
    (name ∈ removed ↔ ∃ marker after, (lock.acquire key).exec start = (.ok marker, after))
  refused : ∀ key name, Lock.fileName? key = some name → start.under place name ≠ none →
    (name ∉ removed ↔ ∃ holder age after,
      (lock.acquire key).exec start = (.error (.lockHeld key holder age), after))
  listed : ∃ rows after, Reports ["locks"] (.arr rows) start after ∧
    after.belongings = start.belongings ∧
      List.Forall₂ (fun name row => IsRow name (decide (name ∈ removed)) row)
        (markerNames start place) rows
  pruned : ∃ after last, Reports ["prune-locks"] (removalReport removed) start after ∧
    Pruned place removed start after ∧
      Reports ["prune-locks"] (removalReport []) after last ∧ Pruned place [] after last

omit [Runtime] in
theorem fits_removalReport (removed : List String) : (removalReport removed).fits 2 = true := by
  rw [removalReport, Json.fits_obj, List.forall_mem_singleton, Json.fits_arr]
  intro row hr
  obtain ⟨name, -, rfl⟩ := List.mem_map.mp hr
  exact Json.fits_str _

variable {keeper : Keeper} {ready : Machine}

theorem reports_prune (composed : compose.exec start = (.ok keeper, ready))
    (orderly : keeper.lock.IsOrderly start place) :
    ∃ after, Reports ["prune-locks"] (removalReport (keeper.lock.uselessNames start place))
      start after ∧ Pruned place (keeper.lock.uselessNames start place) start after := by
  have quiet := quiet_of_compose composed
  have told : diagnosisProgram.read ["prune-locks"] = .ok (some ("prune-locks", .none)) := rfl
  obtain ⟨left, ran, pruned⟩ := Diagnosis.pruneAll_exec (orderly.of_quiet quiet)
  rw [Lock.uselessNames_of_quiet quiet] at ran pruned
  obtain ⟨after, reports, still⟩ :=
    reports_of_examine told composed ran (fits_report (fits_removalReport _))
  have only := (Pruned.of_quiet quiet).trans (pruned.trans (.of_quiet still))
  rw [List.append_nil] at only
  exact ⟨after, reports, only⟩

theorem reports_locks (composed : compose.exec start = (.ok keeper, ready))
    (orderly : keeper.lock.IsOrderly start place) :
    ∃ rows after, Reports ["locks"] (.arr rows) start after ∧ after.belongings = start.belongings ∧
      List.Forall₂ (fun name row =>
        IsRow name (decide (name ∈ keeper.lock.uselessNames start place)) row)
        (markerNames start place) rows := by
  have quiet := quiet_of_compose composed
  have told : diagnosisProgram.read ["locks"] = .ok (some ("locks", .none)) := rfl
  obtain ⟨rows, left, ran, all, still⟩ := Diagnosis.lockRows_exec (orderly.of_quiet quiet)
  rw [Lock.uselessNames_of_quiet quiet, Lock.markerNames_of_quiet quiet] at all
  have fits : (Json.arr rows).fits 2 = true := by
    rw [Json.fits_arr]
    intro row hr
    obtain ⟨name, -, isRow⟩ := exists_of_forall₂ all.flip hr
    exact isRow.fits
  obtain ⟨after, reports, last⟩ := reports_of_examine told composed ran (fits_report fits)
  exact ⟨rows, after, reports, (quiet.trans (still.trans last)).belongings, all⟩

/-- Removing marker files, listing them and taking their locks agree. Where the settings and the
client's metadata make a keeper in whose folder every marker file can be judged, a marker file is
removed and listed as stale if and only if its lock can be taken, and is kept if and only if a marker
refuses the lock. The removed names are reported in order, nothing else is touched, and once more
there is nothing to remove. Where no keeper can be made, both commands stop with that failure and
change nothing. -/
theorem pruning_agrees_with_taking (start : Machine) (outside : StartsOutside start) :
    (∀ keeper ready place, compose.exec start = (.ok keeper, ready) →
      keeper.lock.IsOrderly start place → keeper.lock.holder.natAbs < Json.digitLimit →
        ∃ removed, Agreement keeper.lock start place removed) ∧
      ∀ failure left, compose.exec start = (.error failure, left) →
        (runDiagnosis ["locks"]).exec start = (.error failure, left) ∧
          (runDiagnosis ["prune-locks"]).exec start = (.error failure, left) ∧
            left.belongings = start.belongings := by
  refine ⟨fun keeper ready place composed orderly short => ?_, fun failure left failed => ?_⟩
  · have decided (key : Text) (name : String) (named : Lock.fileName? key = some name)
        (there : start.under place name ≠ none) :
        (name ∈ keeper.lock.uselessNames start place ↔
            ∃ marker after, (keeper.lock.acquire key).exec start = (.ok marker, after)) ∧
          (name ∉ keeper.lock.uselessNames start place ↔ ∃ holder age after,
            (keeper.lock.acquire key).exec start = (.error (.lockHeld key holder age), after)) := by
      have looks := Lock.isMarkerName_of_fileName? named
      obtain ⟨octets, seen, stored, told⟩ := orderly.exists_sight looks there
      have useless : name ∈ keeper.lock.uselessNames start place ↔ keeper.lock.GivesWay (.ok seen) := by
        rw [Lock.mem_uselessNames, sightAt, stored, told]
        exact ⟨And.right, fun gives => ⟨Lock.mem_markerNames.mpr ⟨looks, there⟩, gives⟩⟩
      rw [useless]
      exact Lock.acquire_of_sight named short orderly.ground.numbered stored told
    obtain ⟨after, reports, pruned⟩ := reports_prune composed orderly
    have numbered : after.tree.Numbered := orderly.ground.numbered.of_exec_eq reports.returns
    have marked (name : String) (useless : name ∈ keeper.lock.uselessNames start place) :=
      Lock.mem_markerNames.mp (Lock.mem_uselessNames.mp useless).1
    have sources := sameSources_of_pruned orderly outside pruned
      (fun name useless => (marked name useless).1) numbered
    obtain ⟨again, composedAgain⟩ := compose_again composed sources
    obtain ⟨last, reportsAgain, prunedAgain⟩ :=
      reports_prune composedAgain (orderly.of_pruned pruned numbered)
    rw [pruned.uselessNames_eq_nil orderly numbered] at reportsAgain prunedAgain
    exact ⟨keeper.lock.uselessNames start place, {
      inOrder := (Lock.pairwise_markerNames start place).filter _
      distinct := fun distinct => (Lock.nodup_markerNames distinct place).filter _
      marked := marked
      taken := fun key name named there => (decided key name named there).1
      refused := fun key name named there => (decided key name named there).2
      listed := reports_locks composed orderly
      pruned := ⟨after, last, reports, pruned, reportsAgain, prunedAgain⟩ }⟩
  · have told : diagnosisProgram.read ["locks"] = .ok (some ("locks", .none)) := rfl
    have asked : diagnosisProgram.read ["prune-locks"] = .ok (some ("prune-locks", .none)) := rfl
    refine ⟨runDiagnosis_failed told failed, runDiagnosis_failed asked failed, ?_⟩
    have kept := compose_changesNothing.isPassive start
    rwa [failed] at kept

end Command

namespace Lock

variable {machine : Machine} {lock : Lock} {place : Location} {name : String}

/-- A new file leaves the marker files in order if it is none or can be judged as well. -/
theorem IsOrderly.withFile (orderly : lock.IsOrderly machine place) (hn : Tree.IsFileName name)
    (free : machine.under place name = none) (mode : Nat) {octets : Octets}
    (judged : isMarkerName name = true → (∀ count, ¬ Record.StopsAt octets count) ∧
      ∀ members marker, Record.Spells octets members → Marker.read (.obj members) = .ok marker →
        marker.acquired.offset.isSome = true) :
    lock.IsOrderly (Ground.withFile machine place name mode octets) place := by
  have g := orderly.ground.kept_withFile mode octets free
  refine ⟨g, orderly.placed, fun other marked there => ?_⟩
  by_cases same : other = name
  · subst same
    have read := congrArg Prod.fst (g.answer_readFile hn)
    rw [Ground.under_withFile] at read
    exact ⟨octets, read, judged marked⟩
  · have kept := (Ground.changedOnly_withFile name mode octets free).under same
    rw [kept] at there
    have ho := (orderly.exists_file (mem_markerNames.mpr ⟨marked, there⟩)).1
    obtain ⟨content, stored, told⟩ := orderly.judged other marked there
    have read := congrArg Prod.fst (g.answer_readFile ho)
    rw [kept] at read
    have before := congrArg Prod.fst (orderly.ground.answer_readFile ho)
    exact ⟨content, (read.trans before.symm).trans stored, told⟩

theorem judged_nil : (∀ count, ¬ Record.StopsAt [] count) ∧
    ∀ members marker, Record.Spells [] members → Marker.read (.obj members) = .ok marker →
      marker.acquired.offset.isSome = true := by
  constructor
  · intro count stops
    rw [← Record.entriesOf_eq_error, entriesOf_nil] at stops
    cases stops
  · intro members marker spelled
    rw [← Record.entriesOf_eq_found, entriesOf_nil] at spelled
    cases spelled

end Lock

end

open scoped SessionKeeper.Runtime

namespace Lock

/-- Locks in the folder of the bare machine as the settings make them. -/
def bareLock : Lock := ⟨⟨"/", ["home"]⟩, ⟨45000000⟩, 7⟩

end Lock

namespace Command

open Lock (Pruned)
open Diagnosis (removalReport)

theorem furnished_isOrderly : Lock.bareLock.IsOrderly furnished ["home"] := by
  refine ⟨ground_furnished, rfl, fun name _ there => ?_⟩
  exact absurd (Machine.under_bare name) there

/-- The furnished machine with an empty file in place of a marker. -/
def littered : Machine := Ground.withFile furnished ["home"] "lock-job.json" Record.privateMode []

theorem littered_isOrderly : Lock.bareLock.IsOrderly littered ["home"] :=
  furnished_isOrderly.withFile ⟨by decide, by decide⟩ (Machine.under_bare _) _
    fun _ => Lock.judged_nil

/-- An empty marker file is pruned, and its lock can be taken. -/
theorem empty_marker_is_pruned : ∃ removed after, "lock-job.json" ∈ removed ∧
    Reports ["prune-locks"] (removalReport removed) littered after ∧
      after.under ["home"] "lock-job.json" = none ∧
        ∃ marker left, (Lock.bareLock.acquire "job").exec littered = (.ok marker, left) := by
  have outside : StartsOutside littered := by
    intro number mode content stands
    cases stands
  have composed : (compose.exec littered).1.toOption.map Keeper.lock = some Lock.bareLock := by
    decide +kernel
  rcases made : compose.exec littered with ⟨_ | keeper, ready⟩ <;> rw [made] at composed
  · cases composed
  · have same : keeper.lock = Lock.bareLock := Option.some.inj composed
    have orderly : keeper.lock.IsOrderly littered ["home"] := same ▸ littered_isOrderly
    have short : keeper.lock.holder.natAbs < Json.digitLimit := by
      rw [same]
      decide +kernel
    have named : Lock.fileName? "job" = some "lock-job.json" := by decide +kernel
    have there : littered.under ["home"] "lock-job.json" ≠ none := by
      rw [littered, Ground.under_withFile]
      exact Option.some_ne_none _
    have stored : littered.tree.read littered.directory
        (keeper.lock.folder.child "lock-job.json") = .ok [] := by
      rw [same]
      rfl
    obtain ⟨marker, left, taken⟩ := (Lock.acquire_of_sight named short orderly.ground.numbered stored
      (Lock.sight_nil _)).1.mp trivial
    obtain ⟨removed, agreement⟩ :=
      (pruning_agrees_with_taking littered outside).1 keeper ready ["home"] made orderly short
    have useless := (agreement.taken "job" _ named there).mpr ⟨marker, left, taken⟩
    obtain ⟨after, -, reports, pruned, -⟩ := agreement.pruned
    exact ⟨removed, after, useless, reports, pruned.gone _ useless, marker, left, same ▸ taken⟩

/-- The littered machine with metadata of the client that are no mapping. -/
def spoiled : Machine := Ground.withFile littered ["home"] OAuth.ClientMetadata.fileName 0o644
  (Utf8.encodeChars "- a".toList)

theorem spoiled_isOrderly : Lock.bareLock.IsOrderly spoiled ["home"] :=
  littered_isOrderly.withFile ⟨by decide, by decide⟩ (by decide +kernel) _
    fun marked => absurd marked (by decide)

/-- The furnished machine with a thousand opening brackets in place of a marker. -/
def buried : Machine := Ground.withFile furnished ["home"] "lock-job.json" Record.privateMode
  (Utf8.encodeChars (List.replicate 1000 '['))

theorem buried_stops : Record.StopsAt (Utf8.encodeChars (List.replicate 1000 '['))
    (.levels .array) :=
  Record.entriesOf_eq_error.mp
    (Record.entriesOf_brackets (show Runtime.reads + 1 < 1000 by decide))

/-- More levels than are read stop pruning as well, and whoever wants the lock. -/
theorem depth_stops_pruning : ∃ limit left after,
    (runDiagnosis ["prune-locks"]).exec buried = (.error (.beyond limit), left) ∧
      left.under ["home"] "lock-job.json" ≠ none ∧
      (Lock.bareLock.acquire "job").exec buried = (.error (.beyond (.levels .array)), after) := by
  have named : Lock.fileName? "job" = some "lock-job.json" := by decide +kernel
  have short : Lock.bareLock.holder.natAbs < Json.digitLimit := by decide +kernel
  have ground : Ground buried ⟨"/", ["home"]⟩ ["home"] :=
    ground_furnished.kept_withFile _ _ (Machine.under_bare _)
  have there : buried.under ["home"] "lock-job.json" ≠ none := by
    rw [buried, Ground.under_withFile]
    exact Option.some_ne_none _
  have stored : buried.tree.read buried.directory (Lock.bareLock.folder.child "lock-job.json") =
      .ok (Utf8.encodeChars (List.replicate 1000 '[')) := rfl
  obtain ⟨after, taken⟩ := Lock.acquire_of_stopped named short ground.numbered stored buried_stops
  have composed : (compose.exec buried).1.toOption.map Keeper.lock = some Lock.bareLock := by
    decide +kernel
  rcases made : compose.exec buried with ⟨_ | keeper, ready⟩ <;> rw [made] at composed
  · cases composed
  have same : keeper.lock = Lock.bareLock := Option.some.inj composed
  have quiet := quiet_of_compose made
  have reads : ready.tree.read ready.directory (keeper.lock.folder.child "lock-job.json") =
      .ok (Utf8.encodeChars (List.replicate 1000 '[')) := by
    rw [quiet.tree, quiet.circumstances.directory, same]
    exact stored
  have marked : "lock-job.json" ∈ Lock.markerNames ready ["home"] := by
    rw [Lock.markerNames_of_quiet quiet]
    exact Lock.mem_markerNames.mpr ⟨by decide, there⟩
  obtain ⟨limit, refused⟩ :=
    Lock.listing_of_meetsLimit ⟨"lock-job.json", marked, _, _, reads, buried_stops⟩
  have home : Ground ready keeper.lock.folder ["home"] := same ▸ ground.of_quiet quiet
  obtain ⟨left, listed, still⟩ := Lock.markers_exec home
  have told : diagnosisProgram.read ["prune-locks"] = .ok (some ("prune-locks", .none)) := rfl
  refine ⟨limit, left, after, ?_, ?_, taken⟩
  · rw [refused] at listed
    rw [runDiagnosis_eq told, Action.exec_bind_ok made]
    exact Action.exec_bind_error (Action.exec_bind_error listed)
  · rwa [Machine.under, still.tree, quiet.tree]

/-- Where the client's metadata cannot be used, a marker file is kept though its lock can be taken;
and where it has more levels than are read, it is kept though no marker refuses the lock. -/
theorem metadata_and_depth_stop_pruning :
    (¬ ∀ (start : Machine) (settings : Settings) (lock : Lock) (place : Location) (key : Text)
      (name : String), (Settings.load.exec start).1 = .ok settings →
        lock.folder = settings.folder →
          Duration.ofSeconds settings.lockStaleAfter = .ok lock.staleAfter →
            lock.holder = start.processId → lock.IsOrderly start place →
              Lock.fileName? key = some name → start.under place name ≠ none →
                (((runDiagnosis ["prune-locks"]).exec start).2.under place name = none ↔
                  ∃ marker after, (lock.acquire key).exec start = (.ok marker, after))) ∧
    ∃ limit left after,
      (runDiagnosis ["prune-locks"]).exec buried = (.error (.beyond limit), left) ∧
        left.under ["home"] "lock-job.json" ≠ none ∧
        (Lock.bareLock.acquire "job").exec buried = (.error (.beyond (.levels .array)), after) := by
  refine ⟨fun claim => ?_, depth_stops_pruning⟩
  have named : Lock.fileName? "job" = some "lock-job.json" := by decide +kernel
  have there : spoiled.under ["home"] "lock-job.json" ≠ none := by decide +kernel
  have loaded : (Settings.load.exec spoiled).1.toOption.map (fun settings =>
      (settings.folder, Duration.ofSeconds settings.lockStaleAfter)) =
        some (Lock.bareLock.folder, .ok Lock.bareLock.staleAfter) := by decide +kernel
  have useless : (compose.exec spoiled).1.toOption.isNone = true := by decide +kernel
  have short : Lock.bareLock.holder.natAbs < Json.digitLimit := by decide +kernel
  have taken := (Lock.acquire_of_sight named short
    spoiled_isOrderly.ground.numbered rfl (Lock.sight_nil _)).1.mp trivial
  cases settled : (Settings.load.exec spoiled).1 with
  | error failure =>
    rw [settled] at loaded
    cases loaded
  | ok settings =>
    rw [settled] at loaded
    obtain ⟨folder, lasts⟩ := Prod.mk.inj (Option.some.inj loaded)
    have pruned := (claim spoiled settings Lock.bareLock ["home"] "job" _ settled folder.symm lasts
      rfl spoiled_isOrderly named there).mpr taken
    rcases made : compose.exec spoiled with ⟨failure | keeper, left⟩ <;> rw [made] at useless
    · have kept := compose_changesNothing.isPassive spoiled
      rw [made] at kept
      have asked : diagnosisProgram.read ["prune-locks"] = .ok (some ("prune-locks", .none)) := rfl
      have same : left.tree = spoiled.tree := congrArg Prod.fst kept
      rw [runDiagnosis_failed asked made] at pruned
      refine there ?_
      rw [Machine.under, ← same]
      exact pruned
    · cases useless

end Command

end SessionKeeper
