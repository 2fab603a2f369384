import SessionKeeper.Proofs.Record.InOrder
import SessionKeeper.Proofs.Record.Regular

/-!
# Stores that serve

A store serves when its file can be read, written and removed, whatever the file holds and
whether or not the folder for it stands yet. Reading gives what the store makes of its
file, and whatever entries it is given, it has them afterwards and still serves. What stands
in a file is looked up by the path here, since there may be no folder to start from.
-/
namespace SessionKeeper.Record

variable [Runtime]

namespace Store

variable {machine after : Machine} {folder : Path} {place : Location} {name : String}
  {entries : Assoc Text Json}

def reading (store : Store) (machine : Machine) : Except FileFault Octets :=
  machine.tree.read machine.directory store.path

/-- Whether there is a file to be read. -/
def IsThere (store : Store) (machine : Machine) : Prop :=
  ∃ octets, store.reading machine = .ok octets

/-- What a store makes of its file: the entries of a file that is in order, and none otherwise. -/
def entriesOn (store : Store) (machine : Machine) : Assoc Text Json :=
  match store.reading machine with
  | .ok octets =>
    match entriesOf octets with
    | .ok (.ok entries) => entries
    | _ => []
  | .error _ => []

/-- That there is room for what stands in the file of a store, if there is one. -/
def IsLegible (store : Store) (machine : Machine) : Prop :=
  ∀ octets limit, store.reading machine = .ok octets → entriesOf octets ≠ .error limit

/-- That a store can be read and written, and removed if there is a file. -/
structure Serves (folder : Path) (name : String) (machine : Machine) : Prop where
  numbered : machine.tree.Numbered
  roomy : Roomy machine folder name
  legible : IsLegible ⟨folder.child name⟩ machine

theorem isRegular_entriesOn (store : Store) (machine : Machine) :
    (Json.obj (store.entriesOn machine)).IsRegular (Runtime.reads + 1) := by
  have empty : (Json.obj []).IsRegular (Runtime.reads + 1) := ⟨rfl, rfl⟩
  rw [entriesOn]
  split
  · split
    · rename_i he
      exact isRegular_of_entriesOf he
    · exact empty
  · exact empty

omit [Runtime] in
theorem reading_of_ground (g : Ground machine folder place) (hn : Tree.IsFileName name) :
    reading ⟨folder.child name⟩ machine = Ground.contentOf (machine.under place name) := by
  have read := g.answer_readFile hn
  exact (Prod.mk.inj read).1

omit [Runtime] in
/-- What there is to be read stands in a folder. -/
theorem IsThere.exists_ground (there : IsThere ⟨folder.child name⟩ machine)
    (numbered : machine.tree.Numbered) (down : name ≠ "..") :
    ∃ place, Ground machine folder place ∧ Tree.IsFileName name := by
  obtain ⟨octets, hr⟩ := there
  obtain ⟨⟨l, node⟩, hf, -⟩ := exists_of_bind_ok hr
  obtain ⟨place, g, hn, -⟩ := Record.exists_ground numbered down hf
  exact ⟨place, g, hn⟩

theorem isThere_of_entriesOn_ne_nil {store : Store} (h : store.entriesOn machine ≠ []) :
    store.IsThere machine := by
  rw [entriesOn] at h
  split at h
  · rename_i octets hr
    exact ⟨octets, hr⟩
  · exact absurd rfl h

omit [Runtime] in
theorem reading_of_quiet (store : Store) (quiet : machine.Quiet after) :
    store.reading after = store.reading machine := by
  rw [reading, reading, quiet.tree, quiet.circumstances.directory]

theorem entriesOn_of_quiet (store : Store) (quiet : machine.Quiet after) :
    store.entriesOn after = store.entriesOn machine := by
  rw [entriesOn, entriesOn, store.reading_of_quiet quiet]

omit [Runtime] in
theorem IsThere.iff_of_quiet {store : Store} (quiet : machine.Quiet after) :
    store.IsThere after ↔ store.IsThere machine := by
  rw [IsThere, IsThere, store.reading_of_quiet quiet]

theorem IsLegible.of_quiet {store : Store} (h : store.IsLegible machine)
    (quiet : machine.Quiet after) : store.IsLegible after := by
  rw [IsLegible, store.reading_of_quiet quiet]
  exact h

theorem isLegible_of_isOk {store : Store} {octets : Octets} (there : store.reading machine = .ok octets)
    (told : (entriesOf octets).isOk = true) : store.IsLegible machine := by
  intro other limit found failed
  rw [there] at found
  rw [Except.ok.inj found, failed] at told
  nomatch told

theorem Serves.of_quiet (h : Serves folder name machine) (quiet : machine.Quiet after) :
    Serves folder name after where
  numbered := by
    rw [quiet.tree]
    exact h.numbered
  roomy := h.roomy.of_tree quiet.circumstances.directory quiet.tree
  legible := h.legible.of_quiet quiet

/-- Reading a store that there is room for gives what it makes of its file. -/
theorem IsLegible.entries_exec {store : Store} (h : store.IsLegible machine) :
    ∃ after, store.entries.exec machine = (.ok (store.entriesOn machine), after) ∧
      machine.Quiet after := by
  have ha : machine.answer (.readFile store.path) = (store.reading machine, machine) := rfl
  obtain ⟨status, after, he⟩ : ∃ status after, (read store.path).exec machine =
      (.ok ⟨status, store.entriesOn machine⟩, after) := by
    rw [read, Action.exec_ask_bind ha, entriesOn]
    rcases hr : store.reading machine with fault | octets
    · cases fault <;> exact ⟨_, _, rfl⟩
    · dsimp only
      rcases ho : entriesOf octets with limit | defect | entries
      · exact absurd ho (h octets limit hr)
      · exact ⟨_, _, rfl⟩
      · exact ⟨_, _, rfl⟩
  have quiet := Machine.Quiet.of_passive (read_passive store.path) machine
  rw [he] at quiet
  exact ⟨after, (Action.exec_bind_ok he).trans rfl, quiet⟩

/-- The value under a key is looked up in what the store makes of its file. -/
theorem IsLegible.get?_exec {store : Store} (h : store.IsLegible machine) (key : Text) :
    ∃ after, (store.get? key).exec machine = (.ok ((store.entriesOn machine).value? key), after) ∧
      machine.Quiet after := by
  obtain ⟨after, read, quiet⟩ := h.entries_exec
  exact ⟨after, (Action.exec_bind_ok read).trans rfl, quiet⟩

theorem serves_of_file (g : Ground machine folder place) (down : name ≠ "..")
    (room : HasRoom machine place name) {number mode : Nat} {octets : Octets}
    (stands : machine.under place name = some (.file number mode octets))
    (told : entriesOf octets = .ok (.ok entries)) :
    Serves folder name machine ∧ entriesOn ⟨folder.child name⟩ machine = entries ∧
      IsThere ⟨folder.child name⟩ machine := by
  have found : reading ⟨folder.child name⟩ machine = .ok octets := by
    rw [reading_of_ground g (room.isFileName down), stands]
    rfl
  refine ⟨⟨g.numbered, .of_ground g room (by simp [stands]), ?_⟩, ?_, octets, found⟩
  · intro other limit hr
    rw [found] at hr
    rw [← Except.ok.inj hr, told]
    nofun
  · rw [entriesOn, found]
    simp only [told]

theorem serves_of_none (g : Ground machine folder place) (down : name ≠ "..")
    (room : HasRoom machine place name) (absent : machine.under place name = none) :
    Serves folder name machine ∧ entriesOn ⟨folder.child name⟩ machine = [] ∧
      ¬ IsThere ⟨folder.child name⟩ machine := by
  have missing : reading ⟨folder.child name⟩ machine = .error .absent := by
    rw [reading_of_ground g (room.isFileName down), absent]
    rfl
  refine ⟨⟨g.numbered, .of_ground g room (by simp [absent]), ?_⟩, ?_, ?_⟩
  · intro octets limit hr
    rw [missing] at hr
    nomatch hr
  · rw [entriesOn, missing]
  · rintro ⟨octets, hr⟩
    rw [missing] at hr
    nomatch hr

/-- Writing members makes the folder and the file where there are none. -/
theorem Serves.print_exec (h : Serves folder name machine) (down : name ≠ "..")
    (fits : (Json.obj entries).fits (Runtime.prints + 1) = true) :
    ∃ after, (write (folder.child name) (.obj entries)).exec machine = (.ok (), after) ∧
      ∃ place number, Ground after folder place ∧ HasRoom after place name ∧
        after.under place name = some (.file number privateMode (octetsIn (.obj entries))) := by
  have ho := octetsOf_eq_ok.mpr ⟨fits, rfl⟩
  obtain ⟨between, place, ensured, fixed, -, paved, g⟩ :=
    Folder.ensure_ground h.roomy.stands h.numbered
  obtain ⟨room, plain⟩ := h.roomy.room between place fixed.directory paved g.leads
  obtain ⟨after, replaced⟩ := replaceFile_of_hasRoom g down room plain (octetsIn (.obj entries))
  obtain ⟨_, _, same, -, result⟩ := replaceFile_cases g down (octetsIn (.obj entries))
  rw [replaced] at same
  obtain ⟨rfl, rfl⟩ := Prod.mk.inj same
  obtain ⟨-, -, only, number, hu⟩ | ⟨⟨fault, hf⟩, -⟩ := result
  · have room' : HasRoom after place name := room.of_under fun k =>
      only.under (temporaryName_ne name k)
    refine ⟨after, ?_, place, number, g.exec replaced only, room', hu⟩
    rw [Record.write, ho]
    dsimp only
    rw [Path.parent_child]
    exact (Action.exec_bind_ok ensured).trans replaced
  · cases hf

/-- What members are read back as stands in the file after they were written, if there is room for
them. -/
theorem Serves.write_reread_exec (h : Serves folder name machine) (down : name ≠ "..")
    (canonical : (Json.obj entries).isCanonical = true)
    (fits : (Json.obj entries).fits (Runtime.prints + 1) = true) :
    ∃ after, (write (folder.child name) (.obj entries)).exec machine = (.ok (), after) ∧
      ((Json.obj entries).fits (Runtime.reads + 1) = true →
        Serves folder name after ∧
        entriesOn ⟨folder.child name⟩ after = Assoc.ofPairs (Json.rereadMembers entries) ∧
        IsThere ⟨folder.child name⟩ after) := by
  obtain ⟨after, written, place, number, g, room, stands⟩ := h.print_exec down fits
  exact ⟨after, written, fun fits =>
    serves_of_file g down room stands (entriesOf_octetsIn entries canonical fits)⟩

theorem Serves.write_exec (h : Serves folder name machine) (down : name ≠ "..")
    (regular : (Json.obj entries).IsRegular (Runtime.reads + 1)) :
    ∃ after, (write (folder.child name) (.obj entries)).exec machine = (.ok (), after) ∧
      Serves folder name after ∧ entriesOn ⟨folder.child name⟩ after = entries ∧
      IsThere ⟨folder.child name⟩ after := by
  obtain ⟨after, written, told⟩ :=
    h.write_reread_exec down regular.canonical (Json.fits_prints regular.fits)
  have told := told regular.fits
  rw [show Assoc.ofPairs (Json.rereadMembers entries) = entries from
    Json.obj.inj regular.reread_eq] at told
  exact ⟨after, written, told⟩

/-- A store that serves takes all entries that can be written, and none where there is a file to
remove. -/
theorem Serves.replace_exec (h : Serves folder name machine) (down : name ≠ "..")
    (regular : (Json.obj entries).IsRegular (Runtime.reads + 1))
    (needed : entries = [] → IsThere ⟨folder.child name⟩ machine) :
    ∃ after, (Store.replace ⟨folder.child name⟩ entries).exec machine = (.ok (), after) ∧
      Serves folder name after ∧ entriesOn ⟨folder.child name⟩ after = entries ∧
      (IsThere ⟨folder.child name⟩ after ↔ entries ≠ []) := by
  rw [Store.replace]
  split_ifs with empty
  · obtain rfl := List.isEmpty_iff.mp empty
    obtain ⟨place, g, hn⟩ := (needed rfl).exists_ground h.numbered down
    obtain ⟨room, plain⟩ := h.roomy.hasRoom g
    obtain ⟨after, cleared, only, gone, -⟩ := clear_exec g hn plain
    have room' : HasRoom after place name := room.of_under fun k =>
      only.under (temporaryName_ne name k)
    obtain ⟨serves, none_left, absent⟩ := serves_of_none (g.exec cleared only) down room' gone
    exact ⟨after, cleared, serves, none_left, iff_of_false absent (by simp)⟩
  · obtain ⟨after, written, serves, told, there⟩ := h.write_exec down regular
    exact ⟨after, written, serves, told, iff_of_true there (by simpa using empty)⟩

end Store

end SessionKeeper.Record
