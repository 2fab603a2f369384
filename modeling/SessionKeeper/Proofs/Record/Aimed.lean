import SessionKeeper.Proofs.Lock.Section
import SessionKeeper.Proofs.Record.Served

/-!
# Files in a folder that may not stand yet

Where a path leads does not depend on what has been made, so the place of a folder can be
known before the folder stands. What runs on such a machine may have to make the folder first,
and that changes the content of no file.
-/
namespace SessionKeeper

/-- That nothing was touched but files of one name, in whatever folder. Elsewhere all is as it was,
but for folders that were made where nothing stood. -/
def TouchedOnly (name : String) (before after : Machine) : Prop :=
  ∀ l : Location, l.getLast? ≠ some name → after.tree.node? l = before.tree.node? l ∨
    before.tree.node? l = none ∧ ∃ mode, after.tree.node? l = some (.directory mode)

namespace TouchedOnly

variable {before between after : Machine} {name : String} {place : Location}

theorem of_grown (grown : Tree.Grown before.tree after.tree) : TouchedOnly name before after :=
  fun l _ => grown l

theorem of_changedOnly (only : ChangedOnly place (· = name) before after) :
    TouchedOnly name before after := by
  refine fun l other => .inl (only.elsewhere l ?_)
  rintro _ rfl rfl
  exact other (List.getLast?_concat)

theorem trans (h : TouchedOnly name before between) (k : TouchedOnly name between after) :
    TouchedOnly name before after := by
  intro l other
  rcases h l other with same | ⟨free, mode, made⟩
  · rw [← same]
    exact k l other
  · rcases k l other with same | ⟨none_there, -⟩
    · exact .inr ⟨free, mode, same.trans made⟩
    · rw [made] at none_there
      cases none_there

end TouchedOnly

/-- That an operation touches nothing but files of one name, whether or not their folder stands. -/
def Action.Touches {α : Type} (name : String) (action : Action α) : Prop :=
  ∀ machine, machine.tree.Numbered → TouchedOnly name machine (action.exec machine).2

namespace Action.Touches

variable {α β : Type} {name : String} {folder : Path}

theorem of_passive {action : Action α} (h : action.IsPassive) : action.Touches name :=
  fun machine _ => .of_grown (h.tree machine ▸ .refl _)

theorem pure (a : α) : (Pure.pure a : Action α).Touches name := of_passive (.pure a)

theorem throw (failure : Failure) : (MonadExcept.throw failure : Action α).Touches name :=
  of_passive (.throw failure)

theorem bind {x : Action α} {f : α → Action β} (hx : x.Touches name)
    (hf : ∀ a, (f a).Touches name) : (x >>= f).Touches name := by
  intro machine numbered
  have first := hx machine numbered
  have later := numbered.of_run x.run
  rw [exec_bind]
  rcases he : x.exec machine with ⟨_ | a, between⟩ <;> rw [he] at first
  · exact first
  · exact first.trans (hf a between (numbered.of_exec_eq he))

/-- Making the folder touches no file, and what runs after that finds it standing. -/
theorem ensure_bind {f : Action α} (h : ∀ place, f.Confined folder place (· = name)) :
    (do Folder.ensure folder; f).Touches name := by
  intro machine numbered
  obtain ⟨outcome, between, he, made⟩ := Folder.ensure_made folder machine
  have grown : TouchedOnly name machine between := .of_grown made.paved.grown
  cases outcome with
  | error failure =>
    rw [exec_bind_error he]
    exact grown
  | ok _ =>
    rw [exec_bind_ok he]
    have stands := made.stands.mp rfl
    rw [← (Machine.SameCircumstances.of_exec_eq he).directory] at stands
    obtain ⟨place, g⟩ := stands.exists_ground (numbered.of_exec_eq he)
    exact grown.trans (.of_changedOnly (h place between g))

end Action.Touches

/-- Removing a file touches no file of another name. -/
theorem Record.unlink_touches {folder : Path} {name : String} (down : name ≠ "..") :
    (Action.ask (.unlink (folder.child name))).Touches name := by
  intro machine numbered
  have asked : machine.answer (.unlink (folder.child name)) =
      machine.edit (machine.tree.unlink machine.directory (folder.child name)) := rfl
  cases found : machine.tree.find machine.directory (folder.child name) with
  | ok standing =>
    obtain ⟨place, g, file, -⟩ := exists_ground numbered down found
    exact .of_changedOnly (Ground.unlink_confined file machine g)
  | error fault =>
    rw [Tree.unlink, found] at asked
    rw [Action.exec_ask, asked]
    exact .of_grown (.refl _)

theorem Record.removeFile_touches {folder : Path} {name : String} (down : name ≠ "..") :
    (removeFile (folder.child name)).Touches name := by
  refine .bind (unlink_touches down) fun removed => ?_
  split
  · exact .pure _
  · exact .pure _
  · exact .throw _

namespace Lock

variable {lock : Lock} {key : Text} {name : String} {marker : Marker}

variable [Runtime]

/-- Taking a lock touches no file but its marker, whether or not it is taken. -/
theorem acquire_touches (hk : fileName? key = some name) : (lock.acquire key).Touches name := by
  have down := ne_up_of_fileName? hk
  rw [acquire_eq (markerPath_eq rfl hk)]
  refine .bind (.of_passive (readMarkerAt_passive _)) fun existing => ?_
  refine .bind (.of_passive .now) fun now => ?_
  refine .bind (.of_passive (pass_passive lock key now existing)) fun _ => ?_
  have cleared : (clearWay (lock.folder.child name) existing).Touches name := by
    refine .bind (.of_passive (isBlocked_passive _ existing)) fun occupied => ?_
    split
    · exact .bind (Record.removeFile_touches down) fun _ => .pure _
    · exact .pure _
  refine .bind cleared fun _ => ?_
  have created (marker : Marker) : (lock.create (lock.folder.child name) marker).Touches name := by
    rw [Lock.create]
    refine .ensure_bind fun place machine g => ?_
    have confined := create_confined rfl down marker machine g
    rw [Lock.create, Action.exec_bind_ok g.ensure_exec] at confined
    exact confined
  refine .bind (created _) fun _ => ?_
  exact .bind (.of_passive (.log _ _ _)) fun _ => .pure _

theorem release_touches (hk : fileName? marker.key = some name) :
    (lock.release marker).Touches name := by
  rw [release_eq (markerPath_eq rfl hk)]
  refine .bind (.of_passive (readMarkerAt_passive _)) fun current => ?_
  rw [giveBack]
  split
  · exact .of_passive (.log _ _ _)
  · refine .bind (Record.unlink_touches (ne_up_of_fileName? hk)) fun result => ?_
    split <;> exact .of_passive (.log _ _ _)

end Lock

/-- The octets of the file under a name, if there is one. -/
def Machine.octetsUnder (machine : Machine) (place : Location) (name : String) : Option Octets :=
  (Ground.contentOf (machine.under place name)).toOption

/-- A machine in order on which the path of a folder leads to a place, if it leads anywhere. -/
structure Aimed (folder : Path) (place : Location) (machine : Machine) : Prop where
  numbered : machine.tree.Numbered
  aim : ∀ (tree : Tree) l, tree.locate machine.directory folder = .ok l → l = place

variable {machine after : Machine} {folder : Path} {place : Location} {name : String}
  {names more : String → Prop}

theorem Machine.octetsUnder_of_under (h : after.under place name = machine.under place name) :
    after.octetsUnder place name = machine.octetsUnder place name := by
  rw [octetsUnder, octetsUnder, h]

/-- Making a folder where nothing stood does not change them. -/
theorem Machine.octetsUnder_of_made (h : after.under place name = machine.under place name ∨
      machine.under place name = none ∧ ∃ mode, after.under place name = some (.directory mode)) :
    after.octetsUnder place name = machine.octetsUnder place name := by
  rcases h with same | ⟨free, mode, made⟩
  · exact octetsUnder_of_under same
  · rw [octetsUnder, octetsUnder, free, made]
    rfl

theorem Machine.octetsUnder_of_grown (grown : Tree.Grown machine.tree after.tree) (place : Location)
    (name : String) : after.octetsUnder place name = machine.octetsUnder place name :=
  octetsUnder_of_made (grown (place ++ [name]))

namespace Aimed

theorem exec {α : Type} (h : Aimed folder place machine) (action : Action α) :
    Aimed folder place (action.exec machine).2 where
  numbered := h.numbered.of_run action.run
  aim := by
    rw [(Machine.SameCircumstances.of_exec action machine).directory]
    exact h.aim

theorem of_quiet (h : Aimed folder place machine) (quiet : machine.Quiet after) :
    Aimed folder place after where
  numbered := quiet.tree ▸ h.numbered
  aim := by
    rw [quiet.circumstances.directory]
    exact h.aim

theorem ground (h : Aimed folder place machine)
    (stands : machine.tree.Stands machine.directory folder) : Ground machine folder place := by
  obtain ⟨there, g⟩ := stands.exists_ground h.numbered
  exact h.aim machine.tree there g.leads ▸ g

end Aimed

/-- That an operation leaves the octets of some files alone, also where it has to make the
folder. -/
def Action.LeavesOctets {α : Type} (folder : Path) (place : Location) (names : String → Prop)
    (action : Action α) : Prop :=
  ∀ machine, Aimed folder place machine → ∀ name, names name →
    (action.exec machine).2.octetsUnder place name = machine.octetsUnder place name

namespace Action.LeavesOctets

variable {α β : Type}

theorem of_passive {action : Action α} (h : action.IsPassive) :
    action.LeavesOctets folder place names := fun machine _ _ _ =>
  Machine.octetsUnder_of_under (by rw [Machine.under, Machine.under, h.tree machine])

theorem pure (a : α) : (Pure.pure a : Action α).LeavesOctets folder place names :=
  of_passive (.pure a)

theorem throw (failure : Failure) :
    (MonadExcept.throw failure : Action α).LeavesOctets folder place names :=
  of_passive (.throw failure)

theorem bind {x : Action α} {f : α → Action β} (hx : x.LeavesOctets folder place names)
    (hf : ∀ a, (f a).LeavesOctets folder place names) :
    (x >>= f).LeavesOctets folder place names := by
  intro machine h name hn
  have first := hx machine h name hn
  have later := h.exec x
  rw [exec_bind]
  rcases he : x.exec machine with ⟨_ | a, between⟩ <;> rw [he] at first later
  · exact first
  · exact (hf a between later name hn).trans first

theorem mono {action : Action α} (h : action.LeavesOctets folder place names)
    (hn : ∀ name, more name → names name) : action.LeavesOctets folder place more :=
  fun machine aimed name hm => h machine aimed name (hn name hm)

/-- Making the folder changes no file, and what runs after that finds it standing. -/
theorem ensure_bind {f : Action α} (h : f.Confined folder place names) :
    (do Folder.ensure folder; f).LeavesOctets folder place (¬ names ·) := by
  intro machine aimed name hn
  obtain ⟨outcome, between, he, made⟩ := Folder.ensure_made folder machine
  have grown := Machine.octetsUnder_of_grown made.paved.grown place name
  have later := aimed.exec (Folder.ensure folder)
  rw [he] at later
  cases outcome with
  | error failure =>
    rw [exec_bind_error he]
    exact grown
  | ok _ =>
    rw [exec_bind_ok he]
    have stands := made.stands.mp rfl
    rw [← (Machine.SameCircumstances.of_exec_eq he).directory] at stands
    have g := later.ground stands
    exact (Machine.octetsUnder_of_under ((h between g).under hn)).trans grown

end Action.LeavesOctets

/-- What touches nothing but files of one name leaves the octets of all others alone. -/
theorem Action.Touches.leavesOctets {α : Type} {action : Action α} (h : action.Touches name) :
    action.LeavesOctets folder place (· ≠ name) := fun machine aimed other apart =>
  Machine.octetsUnder_of_made (h machine aimed.numbered (place ++ [other]) (by simpa using apart))

namespace Record.Store

variable {entries : Assoc Text Json}

variable [Runtime]

/-- Reading a store returns what it makes of its file, if it returns. -/
theorem entriesOn_yields (store : Store) (machine : Machine) :
    store.entries.Yields machine fun found after =>
      found = store.entriesOn machine ∧ machine.Quiet after := by
  intro found after h
  have quiet := Machine.Quiet.of_passive (entries_passive store) machine
  rw [h] at quiet
  refine ⟨?_, quiet⟩
  have asked : machine.answer (.readFile store.path) = (store.reading machine, machine) := rfl
  rw [Store.entries, Store.load, Record.read, bind_assoc, Action.exec_ask_bind asked] at h
  rw [entriesOn]
  rcases hr : store.reading machine with fault | octets <;> rw [hr] at h
  · cases fault <;> exact (Except.ok.inj (Prod.mk.inj h).1).symm
  · dsimp only at h ⊢
    rcases he : entriesOf octets with count | defect | found <;> simp only [he] at h
    · cases (Prod.mk.inj h).1
    · exact (Except.ok.inj (Prod.mk.inj h).1).symm
    · exact (Except.ok.inj (Prod.mk.inj h).1).symm

theorem replace_leaves (hn : Tree.IsFileName name) (entries : Assoc Text Json) :
    (Store.replace ⟨folder.child name⟩ entries).LeavesOctets folder place
      fun other => ¬ (other = name ∨ ∃ k, other = Machine.temporaryName name k) := by
  rw [Store.replace]
  split_ifs
  · refine .bind ((removeFile_touches hn.down).leavesOctets.mono fun _ h => (not_or.mp h).1) fun removed => ?_
    split
    · exact .of_passive (.log _ _ _)
    · exact .pure _
  · rw [Record.write]
    split
    · exact .throw _
    · rw [Path.parent_child]
      exact .ensure_bind (replaceFile_confined hn _)

theorem put_leaves (hn : Tree.IsFileName name) (key : Text) (value : Json) :
    (Store.put ⟨folder.child name⟩ key value).LeavesOctets folder place
      fun other => ¬ (other = name ∨ ∃ k, other = Machine.temporaryName name k) :=
  .bind (.of_passive (entries_passive _)) fun _ => replace_leaves hn _

theorem write_aimed (aimed : Aimed folder place machine) (hn : Tree.IsFileName name)
    (regular : (Json.obj entries).IsRegular (Runtime.reads + 1)) :
    (write (folder.child name) (.obj entries)).Ends machine fun outcome after =>
      after.keychain = machine.keychain ∧ match outcome with
        | .ok () => Store.entriesOn ⟨folder.child name⟩ after = entries
        | .error _ => after.octetsUnder place name = machine.octetsUnder place name := by
  rw [Record.write, octetsOf_eq_ok.mpr ⟨Json.fits_prints regular.fits, rfl⟩]
  dsimp only
  rw [Path.parent_child]
  obtain ⟨outcome, between, he, made⟩ := Folder.ensure_made folder machine
  have grown := Machine.octetsUnder_of_grown made.paved.grown place name
  have later := aimed.exec (Folder.ensure folder)
  rw [he] at later
  cases outcome with
  | error failure => exact .of_exec (Action.exec_bind_error he) ⟨made.keychain, grown⟩
  | ok _ =>
    have stands := made.stands.mp rfl
    rw [← (Machine.SameCircumstances.of_exec_eq he).directory] at stands
    have g := later.ground stands
    obtain ⟨_, after, hr, keys, ⟨rfl, -, only, number, hu⟩ | ⟨⟨fault, rfl⟩, nodes⟩⟩ :=
      replaceFile_cases g hn.down (octetsIn (.obj entries))
    · refine .of_exec ((Action.exec_bind_ok he).trans hr) ⟨keys.trans made.keychain, ?_⟩
      rw [entriesOn, reading_of_ground (g.exec hr only) hn, hu]
      simp only [Ground.contentOf]
      rw [entriesOf_octetsIn entries regular.canonical regular.fits, Json.obj.inj regular.reread_eq]
    · refine .of_exec ((Action.exec_bind_ok he).trans hr) ⟨keys.trans made.keychain, ?_⟩
      exact (Machine.octetsUnder_of_under (nodes _)).trans grown

/-- Putting a value into a store, in a folder that may have to be made, puts it there or changes
nothing. -/
theorem put_aimed (aimed : Aimed folder place machine) (hn : Tree.IsFileName name) {key : Text}
    (joined : key.IsJoined) {value : Json} (regular : value.IsRegular Runtime.reads) :
    (Store.put ⟨folder.child name⟩ key value).Ends machine fun outcome after =>
      after.keychain = machine.keychain ∧ match outcome with
        | .ok () => Store.entriesOn ⟨folder.child name⟩ after =
            (Store.entriesOn ⟨folder.child name⟩ machine).put key value
        | .error _ => after.octetsUnder place name = machine.octetsUnder place name := by
  have read := Machine.Quiet.of_passive (entries_passive ⟨folder.child name⟩) machine
  have later := aimed.exec (Store.entries ⟨folder.child name⟩)
  rcases he : (Store.entries ⟨folder.child name⟩).exec machine with ⟨failure | found, between⟩ <;>
    rw [he] at read later
  · exact .of_exec (Action.exec_bind_error he)
      ⟨read.keychain, Machine.octetsUnder_of_under (read.under _ _)⟩
  · obtain ⟨rfl, -⟩ := entriesOn_yields ⟨folder.child name⟩ machine found between he
    generalize hm : Store.entriesOn ⟨folder.child name⟩ machine = entries at he ⊢
    have some_entry : ¬ (entries.put key value).isEmpty = true := by
      rw [List.isEmpty_iff]
      exact entries.put_ne_nil key value
    have whole : (Store.put ⟨folder.child name⟩ key value).exec machine =
        (write (folder.child name) (.obj (entries.put key value))).exec between := by
      rw [Store.put, Action.exec_bind_ok he, Store.replace, if_neg some_entry]
    have written := write_aimed later hn
      ((hm ▸ isRegular_entriesOn ⟨folder.child name⟩ machine).put joined regular)
    unfold Action.Ends at written ⊢
    rw [whole]
    refine ⟨written.1.trans read.keychain, ?_⟩
    have told := written.2
    cases ho : ((write (folder.child name) (.obj (entries.put key value))).exec between).1 with
    | error failure =>
      rw [ho] at told
      exact told.trans (Machine.octetsUnder_of_under (read.under _ _))
    | ok _ =>
      rw [ho] at told
      exact told

end Record.Store

end SessionKeeper
