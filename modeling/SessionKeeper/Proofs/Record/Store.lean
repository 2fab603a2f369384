import SessionKeeper.Proofs.Assoc
import SessionKeeper.Proofs.Record.Document

/-!
# What stores do to their files

A store is a record file under one name. `Holds` says which entries its file has, and
every operation is described by the entries that the file has afterwards. Writing fails
only for entries that cannot be printed, and then it changes nothing.
-/
namespace SessionKeeper.Record

variable {machine : Machine} {folder : Path} {place : Location} {name : String}

variable [Runtime]

/-- The file under a name is in order and has these entries, or there are none and no file. -/
def Holds (machine : Machine) (place : Location) (name : String) (entries : Assoc Text Json) : Prop :=
  (entries = [] ∧ machine.under place name = none) ∨
    ∃ number mode octets, machine.under place name = some (.file number mode octets) ∧
      entriesOf octets = .ok (.ok entries)

/-- The file under a name is the written form of these entries, and there is none without
entries. -/
def Written (machine : Machine) (place : Location) (name : String) (entries : Assoc Text Json) :
    Prop :=
  if entries.isEmpty then machine.under place name = none
  else ∃ number, machine.under place name =
    some (.file number privateMode (octetsIn (.obj entries)))

theorem Holds.of_under {other : Machine} {entries : Assoc Text Json}
    (h : Holds machine place name entries) (hu : other.under place name = machine.under place name) :
    Holds other place name entries := by
  unfold Holds at h ⊢
  rw [hu]
  exact h

omit [Runtime] in
theorem Written.of_under {other : Machine} {entries : Assoc Text Json}
    (h : Written machine place name entries)
    (hu : other.under place name = machine.under place name) :
    Written other place name entries := by
  unfold Written at h ⊢
  rw [hu]
  exact h

/-- What is written is what is read back where there is room for it. -/
theorem Written.holds {entries : Assoc Text Json} (h : Written machine place name entries)
    (hf : (Json.obj entries).isCanonical = true)
    (fits : (Json.obj entries).fits (Runtime.reads + 1) = true) :
    Holds machine place name (Assoc.ofPairs (Json.rereadMembers entries)) := by
  rw [Written] at h
  split_ifs at h with he
  · rw [List.isEmpty_iff.mp he]
    exact Or.inl ⟨rfl, h⟩
  · obtain ⟨number, hu⟩ := h
    exact Or.inr ⟨number, privateMode, _, hu, entriesOf_octetsIn entries hf fits⟩

omit [Runtime] in
theorem Written.writable {entries : Assoc Text Json} (h : Written machine place name entries)
    (free : machine.under place (Machine.temporaryName name 0) = none) :
    Writable machine place name := by
  refine ⟨free, fun mode hm => ?_⟩
  rw [Written] at h
  split_ifs at h
  · rw [h] at hm
    nomatch hm
  · obtain ⟨number, hu⟩ := h
    rw [hu] at hm
    nomatch hm

theorem read_passive (path : Path) : (read path).IsPassive := by
  refine (Action.IsPassive.readFile path).bind fun content => ?_
  split
  · exact .pure _
  · exact (Action.IsPassive.log _ _ _).bind fun _ => .pure _
  · split
    · exact .throw _
    · exact (Action.IsPassive.log _ _ _).bind fun _ => .pure _
    · exact .pure _

/-- A file that is in order is read without a word. -/
theorem read_exec (g : Ground machine folder place) (hn : Tree.IsFileName name)
    {entries : Assoc Text Json} (h : Holds machine place name entries) :
    (read (folder.child name)).exec machine =
      (.ok ⟨if (machine.under place name).isSome then .found else .absent, entries⟩, machine) := by
  have ha := g.answer_readFile hn
  rcases h with ⟨rfl, hu⟩ | ⟨number, mode, octets, hu, he⟩
  · rw [hu] at ha ⊢
    exact Action.exec_ask_bind ha
  · rw [hu] at ha ⊢
    refine (Action.exec_ask_bind ha).trans ?_
    simp only [Ground.contentOf, he]
    rfl

namespace Store

theorem entries_exec (g : Ground machine folder place) (hn : Tree.IsFileName name)
    {entries : Assoc Text Json} (h : Holds machine place name entries) :
    (Store.entries ⟨folder.child name⟩).exec machine = (.ok entries, machine) := by
  exact (Action.exec_bind_ok (read_exec g hn h)).trans rfl

theorem get?_exec (g : Ground machine folder place) (hn : Tree.IsFileName name)
    {entries : Assoc Text Json} (h : Holds machine place name entries) (key : Text) :
    (Store.get? ⟨folder.child name⟩ key).exec machine = (.ok (entries.value? key), machine) :=
  (Action.exec_bind_ok (entries_exec g hn h)).trans rfl

theorem entries_passive (store : Store) : store.entries.IsPassive :=
  (read_passive store.path).bind fun _ => .pure _

end Store

/-- The outcome of replacing the entries of a store: only its file was touched, and either it
is written or there was no room to print the entries. -/
structure Replaced (place : Location) (name : String) (entries : Assoc Text Json)
    (before : Machine) (outcome : Except Failure Unit) (after : Machine) : Prop where
  only : ChangedOnly place (· = name) before after
  keychain : after.keychain = before.keychain
  result : (outcome = .ok () ∧ Written after place name entries) ∨
    ((∃ failure, outcome = .error failure) ∧
      (Json.obj entries).fits (Runtime.prints + 1) = false ∧ after = before)

namespace Store

omit [Runtime] in
theorem clear_exec (g : Ground machine folder place) (hn : Tree.IsFileName name)
    (plain : ∀ mode, machine.under place name ≠ some (.directory mode)) :
    ∃ after, (Store.clear ⟨folder.child name⟩).exec machine = (.ok (), after) ∧
      ChangedOnly place (· = name) machine after ∧ after.under place name = none ∧
      after.keychain = machine.keychain := by
  have ha := g.answer_unlink hn
  cases hu : machine.under place name with
  | none =>
    rw [hu] at ha
    refine ⟨machine, ?_, ChangedOnly.refl _, hu, rfl⟩
    have hr : (removeFile (folder.child name)).exec machine = (.ok false, machine) :=
      Action.exec_ask_bind ha
    exact (Action.exec_bind_ok hr).trans rfl
  | some node =>
    cases node with
    | directory mode => exact absurd hu (plain mode)
    | file number mode content =>
      rw [hu] at ha
      have hr : (removeFile (folder.child name)).exec machine =
          (.ok true, Ground.without machine place name) := Action.exec_ask_bind ha
      refine ⟨_, (Action.exec_bind_ok hr).trans rfl, ?_, ?_, rfl⟩
      · exact (Ground.changedOnly_without name plain).trans (ChangedOnly.of_tree rfl)
      · exact Ground.under_without machine place name

theorem replace_exec (g : Ground machine folder place) (hn : IsRecordName name)
    (w : Writable machine place name) (entries : Assoc Text Json) :
    ∃ outcome after, (Store.replace ⟨folder.child name⟩ entries).exec machine = (outcome, after) ∧
      Replaced place name entries machine outcome after := by
  rw [Store.replace]
  split_ifs with he
  · obtain ⟨after, hc, only, gone, keys⟩ := clear_exec g hn.file w.plain
    refine ⟨_, _, hc, only, keys, Or.inl ⟨rfl, ?_⟩⟩
    rw [Written, if_pos he]
    exact gone
  · rw [Record.write]
    cases ho : octetsOf (.obj entries) with
    | error limit =>
      exact ⟨_, _, rfl, ChangedOnly.refl _, rfl,
        Or.inr ⟨⟨_, rfl⟩, not_fits_of_octetsOf ho, rfl⟩⟩
    | ok octets =>
      obtain ⟨-, rfl⟩ := octetsOf_eq_ok.mp ho
      obtain ⟨after, hr, only, ⟨number, hu⟩, keys⟩ := replaceFile_exec g hn w _
      refine ⟨_, _, ?_, only, keys, Or.inl ⟨rfl, ?_⟩⟩
      · dsimp only
        rw [Path.parent_child]
        exact (Action.exec_bind_ok g.ensure_exec).trans hr
      · rw [Written, if_neg he]
        exact ⟨number, hu⟩

/-- Giving a key a value in a file that is in order. -/
theorem put_exec (g : Ground machine folder place) (hn : IsRecordName name)
    (w : Writable machine place name) {entries : Assoc Text Json}
    (h : Holds machine place name entries) (key : Text) (value : Json) :
    ∃ outcome after, (Store.put ⟨folder.child name⟩ key value).exec machine = (outcome, after) ∧
      Replaced place name (entries.put key value) machine outcome after := by
  obtain ⟨outcome, after, hr, replaced⟩ := replace_exec g hn w (entries.put key value)
  exact ⟨outcome, after, (Action.exec_bind_ok (entries_exec g hn.file h)).trans hr, replaced⟩

/-- Taking a key out of a file that is in order. -/
theorem remove_exec (g : Ground machine folder place) (hn : IsRecordName name)
    (w : Writable machine place name) {entries : Assoc Text Json}
    (h : Holds machine place name entries) {key : Text} (hk : entries.has key = true) :
    ∃ outcome after, (Store.remove ⟨folder.child name⟩ key).exec machine = (outcome, after) ∧
      Replaced place name (entries.remove key) machine outcome after := by
  obtain ⟨outcome, after, hr, replaced⟩ := replace_exec g hn w (entries.remove key)
  refine ⟨outcome, after, (Action.exec_bind_ok (entries_exec g hn.file h)).trans ?_, replaced⟩
  rw [if_pos hk]
  exact hr

/-- Taking out a key that is not there does nothing. -/
theorem remove_exec_absent (g : Ground machine folder place) (hn : IsRecordName name)
    {entries : Assoc Text Json} (h : Holds machine place name entries) {key : Text}
    (hk : entries.has key = false) :
    (Store.remove ⟨folder.child name⟩ key).exec machine = (.ok (), machine) := by
  refine (Action.exec_bind_ok (entries_exec g hn.file h)).trans ?_
  rw [if_neg (by simp [hk])]
  rfl

end Store

/-- That at most the file of a store was touched, and that it can still be written. -/
structure Touched (place : Location) (name : String) (before after : Machine) : Prop where
  only : ChangedOnly place (· = name) before after
  writable : Writable after place name
  keychain : after.keychain = before.keychain

omit [Runtime] in
theorem Touched.of_tree {before after : Machine} (w : Writable before place name)
    (ht : after.tree = before.tree) (hk : after.keychain = before.keychain) :
    Touched place name before after where
  only := ChangedOnly.of_tree ht
  writable := by
    constructor
    · rw [Machine.under, ht]
      exact w.free
    · intro mode
      rw [Machine.under, ht]
      exact w.plain mode
  keychain := hk

omit [Runtime] in
theorem Touched.trans {a b c : Machine} (h : Touched place name a b) (k : Touched place name b c) :
    Touched place name a c :=
  ⟨h.only.trans k.only, k.writable, k.keychain.trans h.keychain⟩

theorem Replaced.touched {entries : Assoc Text Json} {before after : Machine}
    {outcome : Except Failure Unit} (h : Replaced place name entries before outcome after)
    (w : Writable before place name) : Touched place name before after := by
  refine ⟨h.only, ?_, h.keychain⟩
  rcases h.result with ⟨-, written⟩ | ⟨-, -, rfl⟩
  · refine written.writable ?_
    rw [h.only.under (temporaryName_ne name 0)]
    exact w.free
  · exact w

namespace Store

/-- An operation that reads the entries and then replaces them or does nothing touches at most
the file of the store, whatever the file holds. -/
theorem touched_of_entries (g : Ground machine folder place) (hn : IsRecordName name)
    (w : Writable machine place name) (next : Assoc Text Json → Action Unit)
    (hnext : ∀ entries, (∃ entries', next entries = Store.replace ⟨folder.child name⟩ entries') ∨
      next entries = pure ()) :
    Touched place name machine
      ((Store.entries ⟨folder.child name⟩ >>= next : Action Unit).exec machine).2 := by
  have ht := (entries_passive ⟨folder.child name⟩).tree machine
  have hk := (entries_passive ⟨folder.child name⟩).keychain machine
  rw [Action.exec_bind]
  rcases he : (Store.entries ⟨folder.child name⟩).exec machine with ⟨failure | entries, after⟩
  · rw [he] at ht hk
    exact Touched.of_tree w ht hk
  · rw [he] at ht hk
    have first := Touched.of_tree w ht hk
    have g' := g.exec he first.only
    rcases hnext entries with ⟨entries', hr⟩ | hr
    · obtain ⟨outcome, last, hl, replaced⟩ := replace_exec g' hn first.writable entries'
      dsimp only
      rw [hr, hl]
      exact first.trans (replaced.touched first.writable)
    · dsimp only
      rw [hr]
      exact first

theorem put_touched (g : Ground machine folder place) (hn : IsRecordName name)
    (w : Writable machine place name) (key : Text) (value : Json) :
    Touched place name machine ((Store.put ⟨folder.child name⟩ key value).exec machine).2 :=
  touched_of_entries g hn w _ fun _ => Or.inl ⟨_, rfl⟩

theorem remove_touched (g : Ground machine folder place) (hn : IsRecordName name)
    (w : Writable machine place name) (key : Text) :
    Touched place name machine ((Store.remove ⟨folder.child name⟩ key).exec machine).2 := by
  refine touched_of_entries g hn w _ fun entries => ?_
  split_ifs
  · exact Or.inl ⟨_, rfl⟩
  · exact Or.inr rfl

/-- Whatever its file holds and whatever stands in the way, replacing the entries touches at
most the file and the temporary ones beside it. -/
theorem replace_confined (hn : Tree.IsFileName name) (entries : Assoc Text Json) :
    (Store.replace ⟨folder.child name⟩ entries).Confined folder place
      fun other => other = name ∨ ∃ k, other = Machine.temporaryName name k := by
  rw [Store.replace]
  split_ifs
  · refine .bind ((removeFile_confined hn).mono fun other ho => Or.inl ho) fun removed => ?_
    split
    · exact .of_passive (.log _ _ _)
    · exact .pure _
  · rw [Record.write]
    split
    · exact .of_passive (.throw _)
    · rw [Path.parent_child]
      refine .bind (fun machine g => ?_) fun _ => replaceFile_confined hn _
      rw [g.ensure_exec]
      exact .refl _

theorem put_confined (hn : Tree.IsFileName name) (key : Text) (value : Json) :
    (Store.put ⟨folder.child name⟩ key value).Confined folder place
      fun other => other = name ∨ ∃ k, other = Machine.temporaryName name k :=
  .bind (.of_passive (entries_passive _)) fun _ => replace_confined hn _

theorem remove_confined (hn : Tree.IsFileName name) (key : Text) :
    (Store.remove ⟨folder.child name⟩ key).Confined folder place
      fun other => other = name ∨ ∃ k, other = Machine.temporaryName name k := by
  refine .bind (.of_passive (entries_passive _)) fun entries => ?_
  split_ifs
  · exact replace_confined hn _
  · exact .pure _

end Store

end SessionKeeper.Record
