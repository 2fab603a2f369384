import SessionKeeper.Proofs.Lock.Outcome
import SessionKeeper.Proofs.Record.Tolerance
import SessionKeeper.Proofs.Script.Company

/-!
# How taking a lock is decided

Whatever a marker file holds, taking the lock comes down to what a process sees there: no marker,
a marker with a holder and an age, or something that it cannot deal with. Only a fresh marker is
left in place. Anything else that can be dealt with is removed, and whoever puts something there
before the new marker is created is found instead and told the same way. What cannot be dealt with
is an integer that is too long and a time that cannot be compared with the clock.
-/
namespace SessionKeeper.Lock

/-- What a process sees in the place of a marker: nothing that is one, or the holder and the age of
a marker, unless looking at it fails. -/
abbrev Sight := Except Failure (Option (Int × Duration))

section

variable [Runtime]

def found : Except FileFault Octets → Except Failure (Option Marker)
  | .error _ => .ok none
  | .ok octets =>
    match Record.entriesOf octets with
    | .error limit => .error (.beyond limit)
    | .ok (.error _) => .ok none
    | .ok (.ok members) =>
      match Marker.read (.obj members) with
      | .ok marker => .ok (some marker)
      | .error _ => .ok none

/-- What the clock tells of a marker. -/
def aged (now : Moment) : Option Marker → Sight
  | none => .ok none
  | some marker =>
    match marker.age? now with
    | some age => .ok (some (marker.holder, age))
    | none => .error (.incomparable .subtract)

/-- What is seen in a file by its content. -/
def sight (now : Moment) (content : Except FileFault Octets) : Sight := found content >>= aged now

/-- What stands for each sight: the object of a marker that can be compared with the clock, one that
cannot, an integer that is too long, or anything else. -/
inductive Sees (now : Moment) (octets : Octets) : Sight → Prop where
  | marker {members : Assoc Text Json} {marker : Marker} {age : Duration}
    (spelled : Record.Spells octets members) (told : Marker.read (.obj members) = .ok marker)
    (old : marker.age? now = some age) : Sees now octets (.ok (some (marker.holder, age)))
  | apart {members : Assoc Text Json} {marker : Marker}
    (spelled : Record.Spells octets members) (told : Marker.read (.obj members) = .ok marker)
    (incomparable : now.comparable marker.acquired = false) :
    Sees now octets (.error (.incomparable .subtract))
  | beyond {limit : Limit} (stops : Record.StopsAt octets limit) :
    Sees now octets (.error (.beyond limit))
  | none (other : ∀ members marker, Record.Spells octets members →
      Marker.read (.obj members) ≠ .ok marker)
    (whole : ∀ limit, ¬ Record.StopsAt octets limit) : Sees now octets (.ok none)

omit [Runtime] in
theorem Marker.age?_eq_none {marker : Marker} {now : Moment} :
    marker.age? now = none ↔ now.comparable marker.acquired = false := by
  rw [age?, Moment.since?]
  split <;> simp_all

/-- A marker that is found in a file is told by it. -/
theorem found_eq_some {octets : Octets} {current : Marker} :
    found (.ok octets) = .ok (some current) ↔
      ∃ members, Record.Spells octets members ∧ Marker.read (.obj members) = .ok current := by
  constructor
  · intro told
    rw [found] at told
    split at told
    · cases told
    · cases told
    · rename_i members spelled
      split at told
      · rename_i marker read
        obtain rfl := Option.some.inj (Except.ok.inj told)
        exact ⟨members, Record.entriesOf_eq_found.mp spelled, read⟩
      · cases told
  · rintro ⟨members, spelled, told⟩
    simp only [found, Record.entriesOf_eq_found.mpr spelled, told]

/-- Looking at a file fails where the reading stops at a limit. -/
theorem found_eq_error {content : Except FileFault Octets} {failure : Failure} :
    found content = .error failure ↔ ∃ octets limit, content = .ok octets ∧
      Record.StopsAt octets limit ∧ failure = .beyond limit := by
  constructor
  · intro told
    rcases content with fault | octets
    · cases told
    · rw [found] at told
      rcases stops : Record.entriesOf octets with limit | defect | members <;>
        simp only [stops] at told
      · exact ⟨octets, limit, rfl, Record.entriesOf_eq_error.mp stops, (Except.error.inj told).symm⟩
      · cases told
      · split at told <;> cases told
  · rintro ⟨octets, limit, rfl, stops, rfl⟩
    simp only [found, Record.entriesOf_eq_error.mpr stops]

/-- A sight is decided by what stands in the file, and by nothing else. -/
theorem sight_sees (now : Moment) (octets : Octets) (seen : Sight) :
    sight now (.ok octets) = seen ↔ Sees now octets seen := by
  constructor
  · rintro rfl
    rw [sight]
    rcases told : found (.ok octets) with failure | _ | marker
    · obtain ⟨_, limit, same, stops, rfl⟩ := found_eq_error.mp told
      obtain rfl := Except.ok.inj same
      exact .beyond stops
    · refine .none (fun members marker spelled read => ?_) fun limit stops => ?_
      · rw [found_eq_some.mpr ⟨members, spelled, read⟩] at told
        cases told
      · rw [found_eq_error.mpr ⟨octets, limit, rfl, stops, rfl⟩] at told
        cases told
    · obtain ⟨members, spelled, read⟩ := found_eq_some.mp told
      show Sees now octets (aged now (some marker))
      rw [aged]
      split
      · exact .marker spelled read ‹_›
      · exact .apart spelled read (Marker.age?_eq_none.mp ‹_›)
  · intro h
    cases h with
    | marker spelled told old =>
      simp only [sight, found_eq_some.mpr ⟨_, spelled, told⟩, bind, Except.bind, aged, old]
    | apart spelled told incomparable =>
      simp only [sight, found_eq_some.mpr ⟨_, spelled, told⟩, bind, Except.bind, aged,
        Marker.age?_eq_none.mpr incomparable]
    | beyond stops =>
      rw [sight, found_eq_error.mpr ⟨octets, _, rfl, stops, rfl⟩]
      rfl
    | none other whole =>
      rw [sight]
      rcases told : found (.ok octets) with failure | _ | marker
      · obtain ⟨_, limit, same, stops, -⟩ := found_eq_error.mp told
        obtain rfl := Except.ok.inj same
        exact absurd stops (whole limit)
      · rfl
      · obtain ⟨members, spelled, read⟩ := found_eq_some.mp told
        exact absurd read (other members marker spelled)

variable {machine : Machine} {lock : Lock} {key : Text} {name : String} {path : Path}

/-- What is seen at a path. -/
def sightAt (machine : Machine) (path : Path) : Sight :=
  sight machine.now (machine.tree.read machine.directory path)

theorem readMarkerAt_exec (path : Path) (machine : Machine) :
    ∃ after, (readMarkerAt path).exec machine =
      (found (machine.tree.read machine.directory path), after) ∧ machine.Quiet after := by
  have asked : machine.answer (.readFile path) =
      (machine.tree.read machine.directory path, machine) := rfl
  refine ⟨_, Prod.ext ?_ rfl, .of_passive (readMarkerAt_passive path) machine⟩
  rw [readMarkerAt, Record.read, bind_assoc, Action.exec_ask_bind asked]
  rcases machine.tree.read machine.directory path with fault | octets
  · cases fault <;> rfl
  · rw [found]
    dsimp only
    rcases Record.entriesOf octets with limit | defect | members
    · rfl
    · rfl
    · dsimp only
      rw [pure_bind]
      dsimp only
      rcases Marker.read (.obj members) with issues | marker <;> rfl

/-- The failure of who is refused after looking. -/
def refusal (key : Text) : Sight → Failure
  | .ok seen => .lockHeld key (seen.map Prod.fst) (seen.map Prod.snd)
  | .error failure => failure

theorem refuse_exec {α : Type} (key : Text) (path : Path) (machine : Machine) :
    ∃ after, (refuse key path : Action α).exec machine =
      (.error (refusal key (sightAt machine path)), after) ∧ machine.Quiet after := by
  obtain ⟨between, read, quiet⟩ := readMarkerAt_exec path machine
  refine ⟨_, Prod.ext ?_ rfl, .of_passive (refuse_passive key path) machine⟩
  rw [sightAt, sight, refuse]
  rcases told : found (machine.tree.read machine.directory path) with failure | _ | marker <;>
    rw [told] at read
  · rw [Action.exec_bind_error read]
    rfl
  · rw [Action.exec_bind_ok read]
    rfl
  · rw [Action.exec_bind_ok read]
    dsimp only
    rw [Action.exec_bind_ok (Action.exec_now between), quiet.circumstances.now, ageOf]
    show _ = Except.error (refusal key (aged machine.now (some marker)))
    rw [aged]
    rcases marker.age? machine.now with _ | age <;> rfl

/-- Taking a lock up to the removal of what stands in the way: the time, and whether anything
does. -/
def approach (lock : Lock) (key : Text) (path : Path) : Action (Moment × Bool) := do
  let existing ← readMarkerAt path
  let now ← Action.now
  lock.pass key now existing
  let occupied ← isBlocked path existing
  return (now, occupied)

/-- Removes what stands in the way, if anything does. -/
def clear (path : Path) (occupied : Bool) : Action Unit := do
  if occupied then
    let _ ← Record.removeFile path

theorem acquire_approach (lock : Lock) (named : fileName? key = some name) :
    lock.acquire key = lock.approach key (lock.folder.child name) >>= fun found =>
      clear (lock.folder.child name) found.2 >>= fun _ =>
        lock.finish (lock.folder.child name) ⟨key, found.1, lock.holder⟩ := by
  rw [acquire_eq (markerPath_eq rfl named), approach]
  simp only [clearWay, bind_assoc, pure_bind]
  rfl

/-- How the approach ends, by what is seen and by what kind of thing stands there. -/
def judge (lock : Lock) (key : Text) (now : Moment) (kind : Except FileFault Kind) :
    Sight → Except Failure (Moment × Bool)
  | .error failure => .error failure
  | .ok (some (holder, age)) =>
    if lock.isFreshAge age then .error (.lockHeld key (some holder) (some age)) else .ok (now, true)
  | .ok none =>
    match kind with
    | .ok _ => .ok (now, true)
    | .error .absent => .ok (now, false)
    | .error .notDirectory => .ok (now, false)
    | .error fault => .error (.file fault)

theorem approach_exec (lock : Lock) (key : Text) (path : Path) (machine : Machine) :
    ∃ after, (lock.approach key path).exec machine = (lock.judge key machine.now
      (machine.tree.kind machine.directory path) (sightAt machine path), after) ∧
        machine.Quiet after := by
  have passive : (lock.approach key path).IsPassive := by
    refine (readMarkerAt_passive path).bind fun existing => Action.IsPassive.now.bind fun now => ?_
    exact (pass_passive lock key now existing).bind fun _ =>
      (isBlocked_passive path existing).bind fun _ => .pure _
  refine ⟨_, Prod.ext ?_ rfl, .of_passive passive machine⟩
  obtain ⟨between, read, quiet⟩ := readMarkerAt_exec path machine
  rw [sightAt, sight, approach]
  rcases told : found (machine.tree.read machine.directory path) with failure | _ | marker <;>
    rw [told] at read
  · rw [Action.exec_bind_error read]
    rfl
  · have probe : between.answer (.probe path) =
        (machine.tree.kind machine.directory path, between) := by
      rw [← quiet.tree, ← quiet.circumstances.directory]
      rfl
    rw [Action.exec_bind_ok read, Action.exec_bind_ok (Action.exec_now between), pass, pure_bind,
      isBlocked, Option.isSome_none, if_neg (by simp), Folder.isOccupied, bind_assoc,
      Action.exec_ask_bind probe, quiet.circumstances.now]
    rcases machine.tree.kind machine.directory path with fault | kind
    · cases fault <;> rfl
    · rfl
  · rw [Action.exec_bind_ok read, Action.exec_bind_ok (Action.exec_now between), pass, reclaim,
      ageOf, quiet.circumstances.now]
    show _ = lock.judge key machine.now _ (aged machine.now (some marker))
    rw [aged]
    rcases marker.age? machine.now with _ | age
    · rfl
    · simp only [pure_bind, judge]
      cases lock.isFreshAge age <;> rfl

/-- What somebody else can put in the way of a marker file. -/
inductive Obstacle where
  | file (octets : Octets)
  | folder
deriving DecidableEq, Repr

namespace Obstacle

/-- What reading it gives. -/
def content : Obstacle → Except FileFault Octets
  | .file octets => .ok octets
  | .folder => .error .isDirectory

/-- Puts it at a path where nothing stands. -/
def plant (path : Path) : Obstacle → Action Unit
  | .file octets => do
    match ← Action.ask (.createFile path 0o666) with
    | .ok number => Action.ask (.writeFile number octets)
    | .error _ => pure ()
  | .folder => do
    let _ ← Action.ask (.makeDirectory path 0o777)

end Obstacle

/-- Somebody who puts an obstacle at a path as soon as the file there has been removed. -/
def intrusion (path : Path) (rival : Option Obstacle) : Company := fun before request after =>
  match rival, request with
  | some obstacle, .unlink target =>
    if target = path ∧ (before.tree.unlink before.directory path).isOk = true then
      ((obstacle.plant path).exec after).2
    else after
  | _, _ => after

/-- That a request removes nothing. -/
def Spares : Request → Prop
  | .unlink _ => False
  | _ => True

omit [Runtime] in
theorem intrusion_ignores (path : Path) (rival : Option Obstacle) :
    (intrusion path rival).Ignores Spares := by
  intro before request after spares
  cases rival with
  | none => rfl
  | some obstacle =>
    cases request
    case unlink => exact spares.elim
    all_goals rfl

omit [Runtime] in
theorem glances_spares : Request.Glances Spares := by
  intro request glance
  cases request <;> first | exact trivial | exact glance.elim

theorem approach_asks (lock : Lock) (key : Text) (path : Path) :
    (lock.approach key path).Asks Spares := by
  have passes (now : Moment) (existing : Option Marker) :
      (lock.pass key now existing).Asks Spares := by
    cases existing with
    | none => exact .pure _
    | some marker =>
      refine (ageOf_asks marker now).bind fun age => ?_
      split
      · exact .bind (.throw _) fun _ => .ask trivial
      · exact .ask trivial
  have blocks (existing : Option Marker) : (isBlocked path existing).Asks Spares := by
    rw [isBlocked]
    split
    · exact .pure _
    · exact Folder.isOccupied_asks glances_spares path
  exact (readMarkerAt_asks glances_spares.logs trivial).bind fun existing => .bind (.ask trivial)
    fun now => (passes now existing).bind fun _ => (blocks existing).bind fun _ => .pure _

theorem finish_asks (lock : Lock) (path : Path) (marker : Marker) :
    (lock.finish path marker).Asks Spares := by
  have refuses : (refuse marker.key path : Action Unit).Asks Spares := by
    refine (readMarkerAt_asks glances_spares.logs trivial).bind fun found => ?_
    split
    · exact .bind (.ask trivial) fun now => (ageOf_asks _ now).bind fun _ => .throw _
    · exact .throw _
  have creates : (lock.create path marker).Asks Spares := by
    refine (Folder.ensure_asks glances_spares (fun _ _ => trivial) _).bind fun _ => ?_
    refine .bind (.ask trivial) fun made => ?_
    split
    · exact refuses
    · exact .throw _
    · split
      · exact .ask trivial
      · exact .throw _
  exact creates.bind fun _ => .bind (.ask trivial) fun _ => .pure _

variable {folder : Path} {place : Location} {marker : Marker}

omit [Runtime] in
/-- What is put where nothing stands, stands there. -/
theorem Obstacle.plant_exec (obstacle : Obstacle) (g : Ground machine folder place)
    (hn : Tree.IsFileName name) (free : machine.under place name = none) :
    ∃ after node, (obstacle.plant (folder.child name)).exec machine = (.ok (), after) ∧
      Ground after folder place ∧ after.under place name = some node ∧
      Ground.contentOf (some node) = obstacle.content := by
  cases obstacle with
  | file octets =>
    have make : machine.answer (.createFile (folder.child name) 0o666) =
        (.ok machine.tree.nextNumber,
          Ground.withFile machine place name (Tree.masked 0o666) []) := by
      have h := g.create_child hn 0o666
      rwa [free] at h
    obtain ⟨after, fill, only, stands, -⟩ := g.answer_fill free (Tree.masked 0o666) octets
    have he : (plant (folder.child name) (.file octets)).exec machine = (.ok (), after) := by
      rw [plant, Action.exec_ask_bind make]
      show (Action.ask (.writeFile machine.tree.nextNumber octets)).exec _ = _
      rw [Action.exec_ask, fill]
      rfl
    exact ⟨after, _, he, g.exec he only, stands, rfl⟩
  | folder =>
    have make : machine.answer (.makeDirectory (folder.child name) 0o777) =
        (.ok (), Ground.withNode machine place name (.directory (Tree.masked 0o777))) := by
      have h : machine.tree.makeDirectory machine.directory (folder.child name) 0o777 =
          .ok (machine.tree.put (place ++ [name]) (.directory (Tree.masked 0o777))) := by
        have empty : machine.tree.node? (place ++ [name]) = none := free
        rw [Tree.makeDirectory, g.locate hn]
        simp only [bind, Except.bind, empty]
        rfl
      show machine.edit _ = _
      rw [h]
      rfl
    have nodes (l : Location) :
        (Ground.withNode machine place name (.directory (Tree.masked 0o777))).tree.node? l =
          if place ++ [name] = l then some (.directory (Tree.masked 0o777))
          else machine.tree.node? l := Ground.node?_withNode machine name _ l
    have he : (plant (folder.child name) .folder).exec machine =
        (.ok (), Ground.withNode machine place name (.directory (Tree.masked 0o777))) :=
      (Action.exec_ask_bind make).trans rfl
    exact ⟨_, .directory (Tree.masked 0o777), he,
      g.exec he (Ground.changedOnly_of_node (by simp [free]) nodes), (nodes _).trans (if_pos rfl), rfl⟩

/-- A marker that is created is stored where only its owner may use it. -/
theorem finish_stored (marker : Marker) (g : Ground machine lock.folder place)
    (hn : Tree.IsFileName name) (free : machine.under place name = none)
    (short : marker.holder.natAbs < Json.digitLimit) :
    ∃ after number content, (lock.finish (lock.folder.child name) marker).exec machine =
      (.ok marker, after) ∧ Record.octetsOf marker.toJson = .ok content ∧
        after.tree.find after.directory (lock.folder.child name) =
          .ok (place ++ [name], .file number Record.privateMode content) := by
  obtain ⟨content, printed⟩ := Marker.exists_octets short
  obtain ⟨after, he, only, hu, -⟩ := create_exec rfl g hn free printed
  have found := (g.exec he only).find hn
  rw [hu] at found
  exact ⟨after.tell _, machine.tree.nextNumber, content, (Action.exec_bind_ok he).trans rfl, printed,
    found⟩

/-- Where something stands, no marker is created, and it is looked at. -/
theorem finish_refused (marker : Marker) (g : Ground machine lock.folder place)
    (hn : Tree.IsFileName name) {node : Node} (there : machine.under place name = some node) :
    ∃ after, (lock.finish (lock.folder.child name) marker).exec machine =
      (.error (refusal marker.key (sightAt machine (lock.folder.child name))), after) ∧
        machine.Quiet after := by
  have make : machine.answer (.createFile (lock.folder.child name) Record.privateMode) =
      (.error .present, machine) := by
    have h := g.create_child hn Record.privateMode
    rwa [there] at h
  obtain ⟨after, refused, quiet⟩ := refuse_exec (α := Unit) marker.key (lock.folder.child name) machine
  refine ⟨after, ?_, quiet⟩
  have created : (lock.create (lock.folder.child name) marker).exec machine =
      (.error (refusal marker.key (sightAt machine (lock.folder.child name))), after) := by
    rw [Lock.create, Action.exec_bind_ok g.ensure_exec, Action.exec_ask_bind make]
    exact refused
  exact Action.exec_bind_error created

theorem finish_long (g : Ground machine lock.folder place) (down : name ≠ "..")
    (long : Tree.isTooLong name = true) :
    (lock.finish (lock.folder.child name) marker).exec machine =
      (.error (.file .nameTooLong), machine) := by
  have make : machine.answer (.createFile (lock.folder.child name) Record.privateMode) =
      (.error .nameTooLong, machine) := g.create_long down long _
  have created : (lock.create (lock.folder.child name) marker).exec machine =
      (.error (.file .nameTooLong), machine) := by
    rw [Lock.create, Action.exec_bind_ok g.ensure_exec, Action.exec_ask_bind make]
    rfl
  exact Action.exec_bind_error created

/-- Creating a marker goes on from where its folder has been made. -/
theorem finish_paved {paved : Machine}
    (ensured : (Folder.ensure lock.folder).exec machine = (.ok (), paved))
    (g : Ground paved lock.folder place) :
    (lock.finish path marker).exec machine = (lock.finish path marker).exec paved := by
  rw [finish, Lock.create, bind_assoc, Action.exec_bind_ok ensured, Action.exec_bind_ok g.ensure_exec]

omit [Runtime] in
/-- After the removal somebody else has a chance to act. -/
theorem clear_execWith (company : Company) (g : Ground machine folder place)
    (hn : Tree.IsFileName name) {number mode : Nat} {octets : Octets}
    (there : machine.under place name = some (.file number mode octets)) :
    (clear (folder.child name) true).execWith company machine =
      (.ok (), company machine (.unlink (folder.child name)) (Ground.without machine place name)) := by
  have unlinked := g.answer_unlink hn
  rw [there] at unlinked
  have removed : (Record.removeFile (folder.child name)).execWith company machine = (.ok true,
      company machine (.unlink (folder.child name)) (Ground.without machine place name)) :=
    Action.execWith_ask_bind unlinked
  exact Action.execWith_bind_ok removed

omit [Runtime] in
theorem intrusion_removed (obstacle : Obstacle) (g : Ground machine folder place)
    (hn : Tree.IsFileName name) {number mode : Nat} {octets : Octets}
    (there : machine.under place name = some (.file number mode octets)) (after : Machine) :
    intrusion (folder.child name) (some obstacle) machine (.unlink (folder.child name)) after =
      ((obstacle.plant (folder.child name)).exec after).2 := by
  have removes : (machine.tree.unlink machine.directory (folder.child name)).isOk = true := by
    rw [Tree.unlink, g.find hn, there]
    rfl
  exact if_pos ⟨rfl, removes⟩

/-- What stands at the path of a marker: a file with some content, or nothing, and then the folder
stands or can be made. -/
inductive Site (machine : Machine) (folder : Path) (name : String) : Option Octets → Prop where
  | filled {octets : Octets}
    (stored : machine.tree.read machine.directory (folder.child name) = .ok octets) :
    Site machine folder name (some octets)
  | empty (stands : machine.tree.CanStand machine.directory folder)
    (free : ∀ tree place, Tree.Paved machine.directory folder machine.tree tree →
      tree.locate machine.directory folder = .ok place → tree.node? (place ++ [name]) = none) :
    Site machine folder name none

/-- That what is seen is removed: no marker, or one that is not fresh. -/
def GivesWay (lock : Lock) : Sight → Prop
  | .ok none => True
  | .ok (some (_, age)) => lock.isFreshAge age = false
  | .error _ => False

/-- How taking a lock ends, by what stood in the place of the marker and by what somebody else may
have put there after that was removed. -/
inductive Decision (lock : Lock) (key : Text) (name : String) (stored : Option Octets)
    (rival : Option Obstacle) (before : Machine) : Except Failure Marker → Machine → Prop where
  | taken {after : Machine} {place : Location} {number : Nat} {content : Octets}
    (clear : ∀ octets ∈ stored, lock.GivesWay (sight before.now (.ok octets)))
    (alone : stored = none ∨ rival = none)
    (printed : Record.octetsOf (Marker.toJson ⟨key, before.now, lock.holder⟩) = .ok content)
    (stands : after.tree.find after.directory (lock.folder.child name) =
      .ok (place, .file number Record.privateMode content)) :
    Decision lock key name stored rival before (.ok ⟨key, before.now, lock.holder⟩) after
  | held {after : Machine} {octets : Octets} {holder : Int} {age : Duration}
    (there : stored = some octets)
    (seen : sight before.now (.ok octets) = .ok (some (holder, age)))
    (fresh : lock.isFreshAge age = true) (kept : after.tree = before.tree) :
    Decision lock key name stored rival before (.error (.lockHeld key (some holder) (some age))) after
  | raced {after : Machine} {octets : Octets} {obstacle : Obstacle} {found : Option (Int × Duration)}
    (there : stored = some octets) (clear : lock.GivesWay (sight before.now (.ok octets)))
    (came : rival = some obstacle) (seen : sight before.now obstacle.content = .ok found)
    (stands : after.tree.read after.directory (lock.folder.child name) = obstacle.content) :
    Decision lock key name stored rival before
      (.error (.lockHeld key (found.map Prod.fst) (found.map Prod.snd))) after
  | stopped {after : Machine} {octets : Octets} {failure : Failure} (there : stored = some octets)
    (seen : sight before.now (.ok octets) = .error failure) (kept : after.tree = before.tree) :
    Decision lock key name stored rival before (.error failure) after
  | racedStopped {after : Machine} {octets : Octets} {obstacle : Obstacle} {failure : Failure}
    (there : stored = some octets) (clear : lock.GivesWay (sight before.now (.ok octets)))
    (came : rival = some obstacle) (seen : sight before.now obstacle.content = .error failure)
    (stands : after.tree.read after.directory (lock.folder.child name) = obstacle.content) :
    Decision lock key name stored rival before (.error failure) after
  | long {after : Machine} (empty : stored = none) (long : Tree.isTooLong name = true) :
    Decision lock key name stored rival before (.error (.file .nameTooLong)) after

section Taking

variable {octets : Octets} {rival : Option Obstacle}

/-- Where what was removed leaves the way clear, the marker is created unless somebody else came
first, and then that is looked at. -/
theorem acquire_cleared (named : fileName? key = some name)
    (short : lock.holder.natAbs < Json.digitLimit) (g : Ground machine lock.folder place)
    (hn : Tree.IsFileName name) {number mode : Nat}
    (there : machine.under place name = some (.file number mode octets))
    (gives : lock.GivesWay (sight machine.now (.ok octets))) {between : Machine}
    (quiet : machine.Quiet between)
    (passed : (lock.approach key (lock.folder.child name)).execWith
      (intrusion (lock.folder.child name) rival) machine = (.ok (machine.now, true), between)) :
    ∃ outcome after, (lock.acquire key).execWith (intrusion (lock.folder.child name) rival) machine =
      (outcome, after) ∧ Decision lock key name (some octets) rival machine outcome after := by
  have there' : between.under place name = some (.file number mode octets) :=
    (quiet.under place name).trans there
  have g' := g.of_quiet quiet
  have gone : ChangedOnly place (· = name) between (Ground.without between place name) :=
    Ground.changedOnly_without name fun _ hd => by
      rw [there'] at hd
      cases hd
  have bare : Ground (Ground.without between place name) lock.folder place :=
    g'.kept gone ⟨rfl, rfl, rfl, rfl, rfl, rfl, rfl⟩ (g'.numbered.remove _)
  have free := Ground.under_without between place name
  have cleared := clear_execWith (intrusion (lock.folder.child name) rival) g' hn there'
  have steps := acquire_approach lock named
  rw [steps, Action.execWith_bind_ok passed, Action.execWith_bind_ok cleared,
    Action.execWith_of_asks (finish_asks lock _ _) (intrusion_ignores _ rival)]
  cases rival with
  | none =>
    obtain ⟨after, number, content, made, printed, stands⟩ :=
      finish_stored ⟨key, machine.now, lock.holder⟩ bare hn free short
    exact ⟨_, after, made, .taken (fun _ h => Option.some.inj h ▸ gives) (.inr rfl) printed stands⟩
  | some obstacle =>
    obtain ⟨planted, node, acted, taken, stands, told⟩ := obstacle.plant_exec bare hn free
    have fixed := Machine.SameCircumstances.of_exec_eq acted
    have read : planted.tree.read planted.directory (lock.folder.child name) = obstacle.content := by
      have answered := congrArg Prod.fst (taken.answer_readFile hn)
      rw [stands, told] at answered
      exact answered
    have now : planted.now = machine.now := fixed.now.trans quiet.circumstances.now
    obtain ⟨after, refused, still⟩ := finish_refused ⟨key, machine.now, lock.holder⟩
      taken hn stands
    have left : after.tree.read after.directory (lock.folder.child name) = obstacle.content := by
      rw [still.tree, still.circumstances.directory, read]
    rw [intrusion_removed obstacle g' hn there', acted, refused, sightAt, read, now]
    refine ⟨_, after, rfl, ?_⟩
    rcases seen : sight machine.now obstacle.content with failure | found
    · exact .racedStopped rfl gives rfl seen left
    · exact .raced rfl gives rfl seen left

theorem acquire_filled (named : fileName? key = some name)
    (short : lock.holder.natAbs < Json.digitLimit) (numbered : machine.tree.Numbered)
    (stored : machine.tree.read machine.directory (lock.folder.child name) = .ok octets) :
    ∃ outcome after, (lock.acquire key).execWith (intrusion (lock.folder.child name) rival) machine =
      (outcome, after) ∧ Decision lock key name (some octets) rival machine outcome after := by
  obtain ⟨place, g, hn, number, mode, there⟩ : ∃ place, Ground machine lock.folder place ∧
      Tree.IsFileName name ∧ ∃ number mode, machine.under place name =
        some (.file number mode octets) := by
    obtain ⟨⟨l, node⟩, found, content⟩ := exists_of_bind_ok stored
    obtain ⟨place, g, hn, there⟩ := Record.exists_ground numbered (ne_up_of_fileName? named) found
    cases node with
    | directory mode => cases content
    | file number mode old =>
      obtain rfl := Except.ok.inj content
      exact ⟨place, g, hn, number, mode, there⟩
  have kind : machine.tree.kind machine.directory (lock.folder.child name) = .ok .file := by
    have answered := congrArg Prod.fst (g.answer_probe hn)
    rw [there] at answered
    exact answered
  obtain ⟨between, approached, quiet⟩ := approach_exec lock key (lock.folder.child name) machine
  rw [kind, sightAt, stored, ← Action.execWith_of_asks (approach_asks lock key _)
    (intrusion_ignores (lock.folder.child name) rival)] at approached
  have steps := acquire_approach lock named
  have ends {failure : Failure} (h : (lock.approach key (lock.folder.child name)).execWith
      (intrusion (lock.folder.child name) rival) machine = (.error failure, between)) :
      (lock.acquire key).execWith (intrusion (lock.folder.child name) rival) machine =
        (.error failure, between) := by
    rw [steps]
    exact Action.execWith_bind_error h
  rcases seen : sight machine.now (.ok octets) with failure | _ | ⟨holder, age⟩ <;>
    rw [seen, judge] at approached
  · exact ⟨_, between, ends approached, .stopped rfl seen quiet.tree⟩
  · exact acquire_cleared named short g hn there (by rw [seen]; trivial) quiet approached
  · cases fresh : lock.isFreshAge age with
    | true =>
      rw [fresh, if_pos rfl] at approached
      exact ⟨_, between, ends approached, .held rfl seen fresh quiet.tree⟩
    | false =>
      rw [fresh, if_neg (by simp)] at approached
      exact acquire_cleared named short g hn there (by rw [seen]; exact fresh) quiet approached

omit [Runtime] in
/-- Where nothing stands and the folder may still have to be made, the path leads to nothing, or its
name is too long. -/
theorem find_of_free {paved : Machine} (g : Ground paved folder place) (down : name ≠ "..")
    (grown : Tree.Grown machine.tree paved.tree) (directory : paved.directory = machine.directory)
    (free : paved.under place name = none) :
    (Tree.IsFileName name ∧
        machine.tree.find machine.directory (folder.child name) = .error .absent) ∨
      (Tree.isTooLong name = true ∧
        (machine.tree.find machine.directory (folder.child name) = .error .absent ∨
          machine.tree.find machine.directory (folder.child name) = .error .nameTooLong)) := by
  cases long : Tree.isTooLong name with
  | false =>
    have hn : Tree.IsFileName name := ⟨down, long⟩
    have lost := g.find hn
    rw [free, directory] at lost
    exact .inl ⟨hn, grown.find_absent lost⟩
  | true =>
    have lost := Tree.locate_long g.leads g.stands down long
    rw [directory] at lost
    refine .inr ⟨rfl, ?_⟩
    rcases early : machine.tree.locate machine.directory (folder.child name) with fault | l
    · by_cases absent : fault = .absent
      · exact .inl (by rw [Tree.find, early, absent]; rfl)
      · have same : Except.error fault = .error .nameTooLong :=
          (grown.walk_error absent early).symm.trans lost
        exact .inr (by rw [Tree.find, early, Except.error.inj same]; rfl)
    · have leads : paved.tree.locate machine.directory (folder.child name) = .ok l :=
        grown.walk_ok early
      rw [lost] at leads
      cases leads

/-- Taking a lock where there is nothing. -/
theorem acquire_empty (named : fileName? key = some name)
    (short : lock.holder.natAbs < Json.digitLimit) (numbered : machine.tree.Numbered)
    (stands : machine.tree.CanStand machine.directory lock.folder)
    (free : ∀ tree place, Tree.Paved machine.directory lock.folder machine.tree tree →
      tree.locate machine.directory lock.folder = .ok place → tree.node? (place ++ [name]) = none) :
    ∃ outcome after, (lock.acquire key).execWith (intrusion (lock.folder.child name) rival) machine =
      (outcome, after) ∧ Decision lock key name none rival machine outcome after := by
  obtain ⟨between, approached, quiet⟩ := approach_exec lock key (lock.folder.child name) machine
  rw [← Action.execWith_of_asks (approach_asks lock key _)
    (intrusion_ignores (lock.folder.child name) rival)] at approached
  -- The folder is made before the marker, so it is known here already where it will stand.
  have can : between.tree.CanStand between.directory lock.folder := by
    rw [quiet.tree, quiet.circumstances.directory]
    exact stands
  obtain ⟨paved, place, ensured, fixed, -, way, g⟩ :=
    Folder.ensure_ground can (quiet.tree ▸ numbered)
  have directory := fixed.directory.trans quiet.circumstances.directory
  rw [quiet.tree, quiet.circumstances.directory] at way
  have under : paved.under place name = none := free _ _ way (directory ▸ g.leads)
  have down := ne_up_of_fileName? named
  have steps := acquire_approach lock named
  -- Nobody can come between, since nothing is removed.
  have goOn (passed : (lock.approach key (lock.folder.child name)).execWith
      (intrusion (lock.folder.child name) rival) machine = (.ok (machine.now, false), between)) :
      (lock.acquire key).execWith (intrusion (lock.folder.child name) rival) machine =
        (lock.finish (lock.folder.child name) ⟨key, machine.now, lock.holder⟩).exec paved := by
    have kept : (clear (lock.folder.child name) false).execWith
        (intrusion (lock.folder.child name) rival) between = (.ok (), between) := rfl
    rw [steps, Action.execWith_bind_ok passed, Action.execWith_bind_ok kept,
      Action.execWith_of_asks (finish_asks lock _ _) (intrusion_ignores _ rival),
      finish_paved ensured g]
  have unseen {fault : FileFault} (h : machine.tree.find machine.directory
      (lock.folder.child name) = .error fault) :
      sightAt machine (lock.folder.child name) = .ok none ∧
        machine.tree.kind machine.directory (lock.folder.child name) = .error fault := by
    rw [sightAt, Tree.read, Tree.kind, h]
    exact ⟨rfl, rfl⟩
  rcases find_of_free g down way.grown directory under with ⟨hn, lost⟩ | ⟨long, lost | lost⟩ <;>
    rw [(unseen lost).1, (unseen lost).2] at approached
  · obtain ⟨after, number, content, made, printed, stands⟩ :=
      finish_stored ⟨key, machine.now, lock.holder⟩ g hn under short
    have clear (octets : Octets) (h : octets ∈ (none : Option Octets)) :
        lock.GivesWay (sight machine.now (.ok octets)) := by cases h
    exact ⟨_, after, (goOn approached).trans made, .taken clear (.inl rfl) printed stands⟩
  · exact ⟨_, paved, (goOn approached).trans (finish_long g down long), .long rfl long⟩
  · refine ⟨_, between, ?_, .long rfl long⟩
    rw [steps]
    exact Action.execWith_bind_error approached

end Taking

end

def marked (octets : Octets) : Machine :=
  Ground.withFile .bare ["home"] "lock-job.json" Record.privateMode octets

theorem marked_numbered (octets : Octets) : (marked octets).tree.Numbered :=
  (Machine.ground_bare.kept_withFile _ octets (Machine.under_bare _)).numbered

def homeLock : Lock := ⟨⟨"/", ["home"]⟩, ⟨60000000⟩, 7⟩

theorem marked_read (octets : Octets) : (marked octets).tree.read (marked octets).directory
    (homeLock.folder.child "lock-job.json") = .ok octets := rfl

/-- An empty file holds no entries. -/
theorem entriesOf_nil [Runtime] : Record.entriesOf [] = .ok (.error .corrupt) := by
  show Record.entriesOf (Utf8.encodeChars []) = _
  rw [Record.entriesOf, Utf8.decode_encodeChars]
  rfl

theorem sight_nil [Runtime] (now : Moment) : sight now (.ok []) = .ok none := by
  rw [sight, found, entriesOf_nil]
  rfl

/-- A marker whose time has no offset. -/
def unplaced : Marker :=
  ⟨"job", ⟨⟨2025, 1, 1, by decide, by decide, by decide⟩, Moment.midnight, none⟩, 1⟩

end SessionKeeper.Lock
