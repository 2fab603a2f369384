import SessionKeeper.Proofs.Lock.Files
import SessionKeeper.Proofs.Script.Likeness

/-!
# Files that look the same

A likeness spans the files of some names in a folder when nobody who works on those files alone
can tell machines apart that are alike: what is read there is the same, and what is written there
leaves the machines alike. The numbers of open files may differ, so files that were just created
are compared on their own. Then all that is done with a record store or with the lock of a key
agrees as well.
-/
namespace SessionKeeper

/-- How machines compare once both have tried to create a file. -/
inductive Likeness.Created (L : Likeness) (opened : Nat → Nat → Machine → Machine → Prop) :
    Except FileFault Nat → Except FileFault Nat → Machine → Machine → Prop where
  | ok {j k : Nat} {m n : Machine} (h : opened j k m n) : Created L opened (.ok j) (.ok k) m n
  | error {m n : Machine} (fault : FileFault) (h : L.holds m n) :
    Created L opened (.error fault) (.error fault) m n

/-- That machines that are alike cannot be told apart by the files of these names in a folder. -/
structure Likeness.Spans (L : Likeness) (folder : Path) (names : String → Prop)
    (opened : Nat → Nat → Machine → Machine → Prop) : Prop where
  clock : Action.now.Agrees L Eq Action.now
  emit (output : Output) : (Action.ask (.emit output)).Agrees L Eq (Action.ask (.emit output))
  ensure : (Folder.ensure folder).Agrees L Eq (Folder.ensure folder)
  readFile {name : String} (hn : names name) : (Action.ask (.readFile (folder.child name))).Agrees L
    Eq (Action.ask (.readFile (folder.child name)))
  probe {name : String} (hn : names name) : (Action.ask (.probe (folder.child name))).Agrees L Eq
    (Action.ask (.probe (folder.child name)))
  unlink {name : String} (hn : names name) : (Action.ask (.unlink (folder.child name))).Agrees L Eq
    (Action.ask (.unlink (folder.child name)))
  createFile {name : String} (hn : names name) (mode : Nat) :
    (Action.ask (.createFile (folder.child name) mode)).Pairs L L.holds
      (Action.ask (.createFile (folder.child name) mode)) (L.Created opened)
  writeFile (j k : Nat) (content : Octets) : (Action.ask (.writeFile j content)).Pairs L (opened j k)
    (Action.ask (.writeFile k content)) fun _ _ m n => L.holds m n
  forget {j k : Nat} {m n : Machine} (h : opened j k m n) : L.holds m n
  replaceFile {name : String} (hn : names name) (content : Octets) :
    (Record.replaceFile (folder.child name) content).Agrees L Eq
      (Record.replaceFile (folder.child name) content)

namespace Likeness.Spans

variable {L : Likeness} {folder : Path} {names : String → Prop}
  {opened : Nat → Nat → Machine → Machine → Prop} {name : String}

open SessionKeeper.Action (Agrees)

theorem log (spans : L.Spans folder names opened) (level : Level) (channel : Channel)
    (message : String) :
    Agrees L Eq (Action.log level channel message) (Action.log level channel message) :=
  spans.emit _

variable [Runtime]

theorem read (spans : L.Spans folder names opened) (hn : names name) :
    Agrees L Eq (Record.read (folder.child name)) (Record.read (folder.child name)) := by
  have unusable (defect : Record.Defect) : Agrees L Eq (do
      Action.log .warning .records defect.message
      return Record.Content.recovered) (do
      Action.log .warning .records defect.message
      return Record.Content.recovered) := (spans.log _ _ _).bind_eq fun _ => .pure rfl
  refine (spans.readFile hn).bind_eq fun answer => ?_
  cases answer with
  | error fault =>
    cases fault with
    | absent => exact .pure rfl
    | _ => exact unusable _
  | ok octets =>
    dsimp only
    split
    · exact .throw _
    · exact unusable _
    · exact .pure rfl

omit [Runtime] in
theorem removeFile (spans : L.Spans folder names opened) (hn : names name) :
    Agrees L Eq (Record.removeFile (folder.child name)) (Record.removeFile (folder.child name)) := by
  refine (spans.unlink hn).bind_eq fun answer => ?_
  split
  · exact .pure rfl
  · exact .pure rfl
  · exact .throw _

theorem write (spans : L.Spans folder names opened) (hn : names name) (document : Json) :
    Agrees L Eq (Record.write (folder.child name) document)
      (Record.write (folder.child name) document) := by
  unfold Record.write
  split
  · exact .throw _
  · rw [Path.parent_child]
    exact spans.ensure.bind_eq fun _ => spans.replaceFile hn _

section Store

variable (spans : L.Spans folder names opened) (hn : names name)
include spans hn

theorem load : Agrees L Eq (Record.Store.load ⟨folder.child name⟩)
    (Record.Store.load ⟨folder.child name⟩) := spans.read hn

theorem entries : Agrees L Eq (Record.Store.entries ⟨folder.child name⟩)
    (Record.Store.entries ⟨folder.child name⟩) :=
  (spans.load hn).bind_eq fun _ => .pure rfl

omit [Runtime] in
theorem clear : Agrees L Eq (Record.Store.clear ⟨folder.child name⟩)
    (Record.Store.clear ⟨folder.child name⟩) := by
  refine (spans.removeFile hn).bind_eq fun removed => ?_
  split
  · exact spans.log _ _ _
  · exact .pure rfl

theorem replace (entries : Assoc Text Json) :
    Agrees L Eq (Record.Store.replace ⟨folder.child name⟩ entries)
      (Record.Store.replace ⟨folder.child name⟩ entries) := by
  unfold Record.Store.replace
  split
  · exact spans.clear hn
  · exact spans.write hn _

theorem put (key : Text) (value : Json) :
    Agrees L Eq (Record.Store.put ⟨folder.child name⟩ key value)
      (Record.Store.put ⟨folder.child name⟩ key value) :=
  (spans.entries hn).bind_eq fun _ => spans.replace hn _

theorem remove (key : Text) : Agrees L Eq (Record.Store.remove ⟨folder.child name⟩ key)
    (Record.Store.remove ⟨folder.child name⟩ key) := by
  refine (spans.entries hn).bind_eq fun entries => ?_
  split
  · exact spans.replace hn _
  · exact .pure rfl

end Store

omit [Runtime] in
theorem isOccupied (spans : L.Spans folder names opened) (hn : names name) :
    Agrees L Eq (Folder.isOccupied (folder.child name)) (Folder.isOccupied (folder.child name)) := by
  refine (spans.probe hn).bind_eq fun answer => ?_
  split
  · exact .pure rfl
  · exact .pure rfl
  · exact .pure rfl
  · exact .throw _

omit [Runtime] in
theorem ageOf (L : Likeness) (marker : Lock.Marker) (now : Moment) :
    Agrees L Eq (Lock.ageOf marker now) (Lock.ageOf marker now) := by
  unfold Lock.ageOf
  split
  · exact .pure rfl
  · exact .throw _

theorem readMarkerAt (spans : L.Spans folder names opened) (hn : names name) :
    Agrees L Eq (Lock.readMarkerAt (folder.child name)) (Lock.readMarkerAt (folder.child name)) := by
  refine (spans.read hn).bind_eq fun content => ?_
  split
  · split
    · exact .pure rfl
    · exact (spans.log _ _ _).bind_eq fun _ => .pure rfl
  · exact .pure rfl

theorem refuse (spans : L.Spans folder names opened) (hn : names name) {α : Type} (key : Text) :
    Agrees L Eq (Lock.refuse key (folder.child name) : Action α)
      (Lock.refuse key (folder.child name)) := by
  refine (spans.readMarkerAt hn).bind_eq fun found => ?_
  cases found with
  | none => exact .throw _
  | some raced => exact spans.clock.bind_eq fun now => (ageOf L raced now).bind_eq fun _ => .throw _

section Lock

variable {lock : Lock} (spans : L.Spans folder names opened) (own : lock.folder = folder)
include spans own

theorem create (hn : names name) (marker : Lock.Marker) :
    Agrees L Eq (lock.create (folder.child name) marker)
      (lock.create (folder.child name) marker) := by
  unfold Lock.create
  rw [own]
  refine spans.ensure.bind_eq fun _ => Action.Pairs.bind (spans.createFile hn _) fun r s m n made => ?_
  cases made with
  | ok h =>
    dsimp only
    cases Record.octetsOf marker.toJson with
    | error limit => exact Action.Agrees.throw _ m n (spans.forget h)
    | ok content =>
      exact (spans.writeFile _ _ content).mono (fun _ _ _ _ alike => ⟨rfl, alike⟩) m n h
  | error fault h =>
    cases fault with
    | present => exact spans.refuse hn marker.key m n h
    | _ => exact Action.Agrees.throw _ m n h

omit [Runtime] in
omit own in
theorem pass (key : Text) (now : Moment) (existing : Option Lock.Marker) :
    Agrees L Eq (lock.pass key now existing) (lock.pass key now existing) := by
  cases existing with
  | none => exact .pure rfl
  | some marker =>
    refine (ageOf L marker now).bind_eq fun age => ?_
    split
    · exact .throw_bind _
    · exact spans.log _ _ _

omit [Runtime] in
omit own in
theorem clearWay (hn : names name) (existing : Option Lock.Marker) :
    Agrees L Eq (Lock.clearWay (folder.child name) existing)
      (Lock.clearWay (folder.child name) existing) := by
  have blocked : Agrees L Eq (Lock.isBlocked (folder.child name) existing)
      (Lock.isBlocked (folder.child name) existing) := by
    unfold Lock.isBlocked
    split
    · exact .pure rfl
    · exact spans.isOccupied hn
  refine blocked.bind_eq fun occupied => ?_
  split
  · exact (spans.removeFile hn).bind_eq fun _ => .pure rfl
  · exact .pure rfl

theorem acquire (hn : names name) {key : Text} (spelled : Lock.fileName? key = some name) :
    Agrees L (fun marker other => marker = other ∧ marker.key = key) (lock.acquire key)
      (lock.acquire key) := by
  rw [Lock.acquire_eq (Lock.markerPath_eq own spelled)]
  refine (spans.readMarkerAt hn).bind_eq fun existing => spans.clock.bind_eq fun now => ?_
  refine (spans.pass key now existing).bind_eq fun _ => ?_
  refine (spans.clearWay hn existing).bind_eq fun _ => ?_
  refine (spans.create own hn _).bind_eq fun _ => ?_
  exact (spans.log _ _ _).bind_eq fun _ => .pure ⟨rfl, rfl⟩

theorem release (hn : names name) {marker : Lock.Marker}
    (spelled : Lock.fileName? marker.key = some name) :
    Agrees L Eq (lock.release marker) (lock.release marker) := by
  rw [Lock.release_eq (Lock.markerPath_eq own spelled)]
  refine (spans.readMarkerAt hn).bind_eq fun current => ?_
  unfold Lock.giveBack
  split
  · exact spans.log _ _ _
  · refine (spans.unlink hn).bind_eq fun answer => ?_
    split
    · exact spans.log _ _ _
    · exact spans.log _ _ _
    · exact spans.log _ _ _

end Lock

end Likeness.Spans

end SessionKeeper
