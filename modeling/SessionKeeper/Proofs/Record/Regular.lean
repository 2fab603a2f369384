import SessionKeeper.Proofs.Json.Parsed
import SessionKeeper.Proofs.Record.Room
import SessionKeeper.Proofs.Script.Yields

/-!
# Stores over files of any content

`entriesAt` is what a store makes of the file under its name, whatever the file holds. All that
was read once can be written again, so writing to a store changes its entries as told and
nothing else. Where the file is in order and can be written, the operations of a store
return; of any other file this is said of those that return.
-/
namespace SessionKeeper.Record

variable {machine after : Machine} {folder : Path} {place : Location} {name : String}
  {entries : Assoc Text Json}

variable [Runtime]

/-- Whatever octets hold entries, these come back as they are and can be printed. -/
theorem isRegular_of_entriesOf {octets : Octets} (h : entriesOf octets = .ok (.ok entries)) :
    (Json.obj entries).IsRegular (Runtime.reads + 1) := by
  rw [entriesOf] at h
  split at h
  · cases Except.ok.inj h
  · rename_i cs _
    split at h
    · cases h
    · cases Except.ok.inj h
    · rename_i members hp
      rw [← Except.ok.inj (Except.ok.inj h)]
      exact Json.isRegular_of_parse (Json.isChars_ofChars cs) hp
    · cases Except.ok.inj h

/-- What a store makes of the file under its name: the entries of a file that is in order, and
none otherwise. -/
def entriesAt (machine : Machine) (place : Location) (name : String) : Assoc Text Json :=
  match machine.under place name with
  | some (.file _ _ octets) =>
    match entriesOf octets with
    | .ok (.ok entries) => entries
    | _ => []
  | _ => []

theorem isRegular_entriesAt (machine : Machine) (place : Location) (name : String) :
    (Json.obj (entriesAt machine place name)).IsRegular (Runtime.reads + 1) := by
  have empty : (Json.obj []).IsRegular (Runtime.reads + 1) := ⟨rfl, rfl⟩
  rw [entriesAt]
  split
  · split
    · rename_i he
      exact isRegular_of_entriesOf he
    · exact empty
  · exact empty

theorem entriesAt_of_under (h : after.under place name = machine.under place name) :
    entriesAt after place name = entriesAt machine place name := by
  rw [entriesAt, entriesAt, h]

theorem Holds.entriesAt_eq (h : Holds machine place name entries) :
    entriesAt machine place name = entries := by
  rcases h with ⟨rfl, hu⟩ | ⟨number, mode, octets, hu, he⟩
  · rw [entriesAt, hu]
  · rw [entriesAt, hu]
    simp only [he]

/-- A file in which a store finds entries is in order. -/
theorem holds_entriesAt (h : entriesAt machine place name ≠ []) :
    Holds machine place name (entriesAt machine place name) := by
  rw [entriesAt] at h ⊢
  split at h
  · rename_i number mode octets hu
    split at h
    · rename_i entries he
      refine Or.inr ⟨number, mode, octets, hu, ?_⟩
      simp only [he]
    · exact absurd rfl h
  · exact absurd rfl h

theorem Holds.isRegular (h : Holds machine place name entries) :
    (Json.obj entries).IsRegular (Runtime.reads + 1) := by
  rw [← h.entriesAt_eq]
  exact isRegular_entriesAt machine place name

theorem Written.holds_self (h : Written machine place name entries)
    (regular : (Json.obj entries).IsRegular (Runtime.reads + 1)) :
    Holds machine place name entries := by
  have holds := h.holds regular.canonical regular.fits
  rwa [show Assoc.ofPairs (Json.rereadMembers entries) = entries from
    Json.obj.inj regular.reread_eq] at holds

namespace Store

/-- Replacing the entries of a file that can be written by ones that there is room for. -/
theorem replace_of_fits (g : Ground machine folder place) (hn : IsRecordName name)
    (w : Writable machine place name) (fits : (Json.obj entries).fits (Runtime.reads + 1) = true)
    (canonical : (Json.obj entries).isCanonical = true) {back : Assoc Text Json}
    (hb : (Json.obj entries).reread = .obj back) :
    ∃ after, (Store.replace ⟨folder.child name⟩ entries).exec machine = (.ok (), after) ∧
      Touched place name machine after ∧ Holds after place name back := by
  obtain ⟨outcome, after, he, replaced⟩ := replace_exec g hn w entries
  have touched := replaced.touched w
  rcases replaced.result with ⟨rfl, written⟩ | ⟨-, unprintable, -⟩
  · have holds := written.holds canonical fits
    rw [show Assoc.ofPairs (Json.rereadMembers entries) = back from Json.obj.inj hb] at holds
    exact ⟨after, he, touched, holds⟩
  · rw [Json.fits_prints fits] at unprintable
    nomatch unprintable

theorem replace_of_regular (g : Ground machine folder place) (hn : IsRecordName name)
    (w : Writable machine place name) (regular : (Json.obj entries).IsRegular (Runtime.reads + 1)) :
    ∃ after, (Store.replace ⟨folder.child name⟩ entries).exec machine = (.ok (), after) ∧
      Touched place name machine after ∧ Holds after place name entries :=
  replace_of_fits g hn w regular.fits regular.canonical regular.reread_eq

/-- Putting a value into a file that is in order puts there what is read back of it. -/
theorem put_of_holds (g : Ground machine folder place) (hn : IsRecordName name)
    (w : Writable machine place name) (h : Holds machine place name entries) (key : Text)
    {value : Json} (fits : value.fits Runtime.reads = true) (canonical : value.isCanonical = true) :
    ∃ after, (Store.put ⟨folder.child name⟩ key value).exec machine = (.ok (), after) ∧
      Touched place name machine after ∧
      Holds after place name (entries.put key.rejoin value.reread) := by
  have regular := h.isRegular
  obtain ⟨after, he, rest⟩ := replace_of_fits g hn w
    (by rwa [Json.fits_put regular.fits])
    (Json.isCanonical_put regular.canonical key canonical) (Json.reread_put regular key value)
  exact ⟨after, (Action.exec_bind_ok (entries_exec g hn.file h)).trans he, rest⟩

/-- Taking a key out of a file that is in order, whether it is there or not. -/
theorem remove_of_holds (g : Ground machine folder place) (hn : IsRecordName name)
    (w : Writable machine place name) (h : Holds machine place name entries) (key : Text) :
    ∃ after, (Store.remove ⟨folder.child name⟩ key).exec machine = (.ok (), after) ∧
      Touched place name machine after ∧ Holds after place name (entries.remove key) := by
  by_cases hk : entries.has key = true
  · obtain ⟨after, he, rest⟩ := replace_of_regular g hn w (h.isRegular.remove key)
    refine ⟨after, (Action.exec_bind_ok (entries_exec g hn.file h)).trans ?_, rest⟩
    rw [if_pos hk]
    exact he
  · refine ⟨machine, remove_exec_absent g hn h (by simpa using hk), .of_tree w rfl rfl, ?_⟩
    rwa [Assoc.remove_of_not_mem (by rwa [← Assoc.has_iff])]

/-- Reading a file of any content returns what a store makes of it, if it returns. -/
theorem entries_yields (g : Ground machine folder place) (hn : Tree.IsFileName name) :
    (Store.entries ⟨folder.child name⟩).Yields machine fun found after =>
      found = entriesAt machine place name ∧ machine.Quiet after := by
  intro found after h
  have quiet := Machine.Quiet.of_passive (entries_passive ⟨folder.child name⟩) machine
  rw [h] at quiet
  refine ⟨?_, quiet⟩
  have ha := g.answer_readFile hn
  rw [Store.entries, Store.load, Record.read, bind_assoc, Action.exec_ask_bind ha] at h
  rw [entriesAt]
  rcases hu : machine.under place name with _ | ⟨number, mode, octets⟩ | mode <;> rw [hu] at h
  · exact (Except.ok.inj (Prod.mk.inj h).1).symm
  · simp only [Ground.contentOf] at h ⊢
    rcases he : entriesOf octets with limit | defect | found <;> simp only [he] at h
    · cases (Prod.mk.inj h).1
    · exact (Except.ok.inj (Prod.mk.inj h).1).symm
    · exact (Except.ok.inj (Prod.mk.inj h).1).symm
  · exact (Except.ok.inj (Prod.mk.inj h).1).symm

end Store

/-- That the entries of a store became what they are told to be, and nothing else changed. -/
structure Wrote (place : Location) (name : String) (entries : Assoc Text Json)
    (before after : Machine) : Prop where
  circumstances : before.SameCircumstances after
  numbered : after.tree.Numbered
  only : ChangedOnly place (· = name) before after
  keychain : after.keychain = before.keychain
  entries : entriesAt after place name = entries

namespace Wrote

theorem ground (h : Wrote place name entries machine after) (g : Ground machine folder place) :
    Ground after folder place := g.kept h.only h.circumstances h.numbered

theorem of_exec {α : Type} {action : Action α} {outcome : Except Failure α}
    (he : action.exec machine = (outcome, after)) (g : Ground machine folder place)
    (only : ChangedOnly place (· = name) machine after)
    (keychain : after.keychain = machine.keychain)
    (told : entriesAt after place name = entries) : Wrote place name entries machine after :=
  ⟨.of_exec_eq he, g.numbered.of_exec_eq he, only, keychain, told⟩

/-- What was only read before does not count. -/
theorem of_quiet {between : Machine} (h : Wrote place name entries between after)
    (quiet : machine.Quiet between) : Wrote place name entries machine after where
  circumstances := quiet.circumstances.trans h.circumstances
  numbered := h.numbered
  only := (ChangedOnly.of_tree quiet.tree).trans h.only
  keychain := h.keychain.trans quiet.keychain
  entries := h.entries

theorem nothing (g : Ground machine folder place) (quiet : machine.Quiet after) :
    Wrote place name (entriesAt machine place name) machine after where
  circumstances := quiet.circumstances
  numbered := by
    rw [quiet.tree]
    exact g.numbered
  only := .of_tree quiet.tree
  keychain := quiet.keychain
  entries := entriesAt_of_under (quiet.under _ _)

end Wrote

namespace Store

/-- Whatever the file held, entries that were replaced are the new ones. -/
theorem replace_yields (g : Ground machine folder place) (hn : Tree.IsFileName name)
    (regular : (Json.obj entries).IsRegular (Runtime.reads + 1)) :
    (Store.replace ⟨folder.child name⟩ entries).Yields machine fun _ after =>
      Wrote place name entries machine after := by
  rw [Store.replace]
  split_ifs with he
  · by_cases plain : ∀ mode, machine.under place name ≠ some (.directory mode)
    · obtain ⟨after, hc, only, gone, keys⟩ := clear_exec g hn plain
      refine .of_exec hc fun _ _ => .of_exec hc g only keys ?_
      rw [entriesAt, gone, List.isEmpty_iff.mp he]
    · obtain ⟨mode, hu⟩ := not_forall_not.mp plain
      have ha := g.answer_unlink hn
      rw [hu] at ha
      rw [Store.clear, removeFile, bind_assoc]
      exact .of_exec (Action.exec_ask_bind ha) fun _ ho => by cases ho
  · cases ho : octetsOf (.obj entries) with
    | error limit =>
      have stopped := not_fits_of_octetsOf ho
      rw [Json.fits_prints regular.fits] at stopped
      cases stopped
    | ok octets =>
      obtain ⟨-, rfl⟩ := octetsOf_eq_ok.mp ho
      obtain ⟨outcome, after, hr, keys, result⟩ := replaceFile_cases g hn.down _
      rw [Record.write, ho]
      dsimp only
      rw [Path.parent_child]
      have whole : (do
          Folder.ensure folder
          replaceFile (folder.child name) (octetsIn (.obj entries)) : Action Unit).exec machine =
            (outcome, after) :=
        (Action.exec_bind_ok g.ensure_exec).trans hr
      refine .of_exec whole fun _ hok => ?_
      rcases result with ⟨-, -, only, number, hu⟩ | ⟨⟨fault, hf⟩, -⟩
      · have written : Written after place name entries := by
          rw [Written, if_neg he]
          exact ⟨number, hu⟩
        exact .of_exec whole g only keys (written.holds_self regular).entriesAt_eq
      · rw [hf] at hok
        cases hok

theorem replace_keychain (g : Ground machine folder place) (hn : Tree.IsFileName name)
    (entries : Assoc Text Json) :
    (Store.replace ⟨folder.child name⟩ entries).Ends machine fun _ after =>
      after.keychain = machine.keychain := by
  rw [Store.replace]
  split_ifs
  · refine Action.Keeps.bind (removeFile_keychain _) (fun removed => ?_) machine
    split_ifs
    · exact fun before => (Action.IsPassive.log _ _ _).keychain before
    · exact .pure _
  · rw [Record.write]
    cases octetsOf (.obj entries) with
    | error limit => rfl
    | ok octets =>
      dsimp only
      rw [Path.parent_child]
      obtain ⟨outcome, after, hr, keys, -⟩ := replaceFile_cases g hn.down octets
      exact .of_exec ((Action.exec_bind_ok g.ensure_exec).trans hr) keys

theorem entries_bind_keychain (g : Ground machine folder place) (hn : Tree.IsFileName name)
    (next : Assoc Text Json → Action Unit) (h : ∀ entries, (∃ entries', next entries =
      Store.replace ⟨folder.child name⟩ entries') ∨ next entries = pure ()) :
    (Store.entries ⟨folder.child name⟩ >>= next : Action Unit).Ends machine fun _ after =>
      after.keychain = machine.keychain := by
  refine .bind (P := fun _ after => machine.Quiet after) (.of_passive (entries_passive _) machine)
    (fun entries between quiet => ?_) fun _ _ quiet => quiet.keychain
  rcases h entries with ⟨entries', he⟩ | he <;> rw [he]
  · exact (replace_keychain (g.of_quiet quiet) hn _).mono fun _ _ hk => hk.trans quiet.keychain
  · exact quiet.keychain

theorem remove_keychain (g : Ground machine folder place) (hn : Tree.IsFileName name) (key : Text) :
    (Store.remove ⟨folder.child name⟩ key).Ends machine fun _ after =>
      after.keychain = machine.keychain := by
  refine entries_bind_keychain g hn _ fun entries => ?_
  split_ifs
  · exact .inl ⟨_, rfl⟩
  · exact .inr rfl

theorem put_yields (g : Ground machine folder place) (hn : Tree.IsFileName name) {key : Text}
    (joined : key.IsJoined) {value : Json} (regular : value.IsRegular Runtime.reads) :
    (Store.put ⟨folder.child name⟩ key value).Yields machine fun _ after =>
      Wrote place name ((entriesAt machine place name).put key value) machine after := by
  refine .bind (entries_yields g hn) fun found between ⟨heq, quiet⟩ => ?_
  rw [heq]
  have regular := (isRegular_entriesAt machine place name).put joined regular
  exact (replace_yields (g.of_quiet quiet) hn regular).mono fun _ _ h => h.of_quiet quiet

theorem remove_yields (g : Ground machine folder place) (hn : Tree.IsFileName name) (key : Text) :
    (Store.remove ⟨folder.child name⟩ key).Yields machine fun _ after =>
      Wrote place name ((entriesAt machine place name).remove key) machine after := by
  refine .bind (entries_yields g hn) fun found between ⟨heq, quiet⟩ => ?_
  rw [heq]
  split_ifs with hk
  · have regular := (isRegular_entriesAt machine place name).remove key
    exact (replace_yields (g.of_quiet quiet) hn regular).mono fun _ _ h => h.of_quiet quiet
  · rw [Assoc.remove_of_not_mem (by rwa [← Assoc.has_iff])]
    exact .pure (.nothing g quiet)

end Store

/-- That there is room for what stands in the file under a name, if there is one. -/
def Legible (machine : Machine) (place : Location) (name : String) : Prop :=
  ∀ number mode octets limit, machine.under place name = some (.file number mode octets) →
    entriesOf octets ≠ .error limit

theorem Legible.of_under (h : Legible machine place name)
    (same : after.under place name = machine.under place name) : Legible after place name := by
  rw [Legible, same]
  exact h

theorem Holds.legible (h : Holds machine place name entries) : Legible machine place name := by
  intro number mode octets limit there refused
  rcases h with ⟨-, gone⟩ | ⟨number, mode, found, stands, told⟩
  · rw [gone] at there
    nomatch there
  · rw [stands] at there
    obtain ⟨⟩ := there
    rw [told] at refused
    nomatch refused

theorem legible_of_entriesAt (h : entriesAt machine place name = entries) (some_left : entries ≠ []) :
    Legible machine place name := by
  subst h
  exact (holds_entriesAt some_left).legible

namespace Store

/-- There was room for what stands in a file that was read. -/
theorem entries_legible (g : Ground machine folder place) (hn : Tree.IsFileName name) :
    (Store.entries ⟨folder.child name⟩).Yields machine fun _ _ => Legible machine place name := by
  intro found after h number mode octets limit there refused
  have ha := g.answer_readFile hn
  rw [there] at ha
  rw [Store.entries, Store.load, Record.read, bind_assoc, Action.exec_ask_bind ha] at h
  simp only [Ground.contentOf, refused] at h
  cases (Prod.mk.inj h).1

/-- Such a file, whatever else is wrong with it, can be read. -/
theorem entries_of_legible (g : Ground machine folder place) (hn : Tree.IsFileName name)
    (h : Legible machine place name) :
    ∃ after, (Store.entries ⟨folder.child name⟩).exec machine =
      (.ok (entriesAt machine place name), after) ∧ machine.Quiet after := by
  have ha := g.answer_readFile hn
  obtain ⟨found, after, he⟩ : ∃ found after,
      (Store.entries ⟨folder.child name⟩).exec machine = (.ok found, after) := by
    rw [Store.entries, Store.load, Record.read, bind_assoc, Action.exec_ask_bind ha]
    rcases hu : machine.under place name with _ | ⟨number, mode, octets⟩ | mode
    · exact ⟨_, _, rfl⟩
    · simp only [Ground.contentOf]
      rcases ho : entriesOf octets with limit | defect | entries
      · exact absurd ho (h number mode octets limit hu)
      · exact ⟨_, _, rfl⟩
      · exact ⟨_, _, rfl⟩
    · exact ⟨_, _, rfl⟩
  obtain ⟨rfl, quiet⟩ := entries_yields g hn found after he
  exact ⟨after, he, quiet⟩

omit [Runtime] in
theorem clear_yields (g : Ground machine folder place) (hn : Tree.IsFileName name) :
    (Store.clear ⟨folder.child name⟩).Yields machine fun _ after =>
      after.under place name = none := by
  by_cases plain : ∀ mode, machine.under place name ≠ some (.directory mode)
  · obtain ⟨after, cleared, -, gone, -⟩ := clear_exec g hn plain
    exact .of_exec cleared fun _ _ => gone
  · obtain ⟨mode, hu⟩ := not_forall_not.mp plain
    have ha := g.answer_unlink hn
    rw [hu] at ha
    rw [Store.clear, removeFile, bind_assoc]
    exact .of_exec (Action.exec_ask_bind ha) fun _ ho => by cases ho

theorem replace_legible (g : Ground machine folder place) (hn : Tree.IsFileName name)
    (regular : (Json.obj entries).IsRegular (Runtime.reads + 1)) :
    (Store.replace ⟨folder.child name⟩ entries).Yields machine fun _ after =>
      Legible after place name := by
  by_cases none_left : entries.isEmpty = true
  · rw [Store.replace, if_pos none_left]
    exact (clear_yields g hn).mono fun _ after gone =>
      (show Holds after place name [] from .inl ⟨rfl, gone⟩).legible
  · exact (replace_yields g hn regular).mono fun _ _ wrote =>
      legible_of_entriesAt wrote.entries (by simpa using none_left)

theorem entries_read (g : Ground machine folder place) (hn : Tree.IsFileName name) :
    (Store.entries ⟨folder.child name⟩).Yields machine fun found after =>
      found = entriesAt machine place name ∧ machine.Quiet after ∧ Legible after place name := by
  intro found after he
  obtain ⟨told, quiet⟩ := entries_yields g hn found after he
  exact ⟨told, quiet, (entries_legible g hn found after he).of_under (quiet.under _ _)⟩

/-- A store that a key was taken out of can be read. -/
theorem remove_legible (g : Ground machine folder place) (hn : Tree.IsFileName name) (key : Text) :
    (Store.remove ⟨folder.child name⟩ key).Yields machine fun _ after =>
      Legible after place name := by
  refine .bind (entries_read g hn) fun found between ⟨heq, quiet, legible⟩ => ?_
  rw [heq]
  split_ifs
  · exact replace_legible (g.of_quiet quiet) hn ((isRegular_entriesAt machine place name).remove key)
  · exact .pure legible

end Store

end SessionKeeper.Record
