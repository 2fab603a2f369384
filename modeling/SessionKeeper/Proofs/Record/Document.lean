import SessionKeeper.Proofs.Disk.Ground
import SessionKeeper.Proofs.Json.Reread
import SessionKeeper.Record.Store

/-!
# Record files on a machine

Reading a record file gives its entries and leaves the machine alone. Replacing one goes
through a temporary file, which is gone in the end whatever happened: nothing but the
record file itself has changed, and it holds the new content.
-/
namespace SessionKeeper.Record

variable {machine : Machine} {folder : Path} {place : Location} {name : String}

theorem temporaryName_ne (stem : String) (number : Nat) :
    Machine.temporaryName stem number ≠ stem := by
  intro h
  have hl := congrArg (fun s => s.toList.length) h
  simp only [Machine.temporaryName, String.toList_append, List.length_append] at hl
  have hd : (".".toList).length = 1 := rfl
  omega

theorem temporaryName_ne_up (stem : String) (number : Nat) :
    Machine.temporaryName stem number ≠ ".." := by
  intro h
  have hl := congrArg (fun s => s.toList.length) h
  simp only [Machine.temporaryName, String.toList_append, List.length_append] at hl
  have hd : (".tmp".toList).length = 4 := rfl
  have hu : ("..".toList).length = 2 := rfl
  omega

/-- A name under which records can be kept. -/
structure IsRecordName (name : String) : Prop where
  file : Tree.IsFileName name
  temporary : Tree.IsFileName (Machine.temporaryName name 0)

/-- That a record file can be written under a name: no temporary file is in the way and no
directory has the name. -/
structure Writable (machine : Machine) (place : Location) (name : String) : Prop where
  free : machine.under place (Machine.temporaryName name 0) = none
  plain : ∀ mode, machine.under place name ≠ some (.directory mode)

/-- The first temporary file is taken where nothing stands under its name. -/
theorem freeTemporary_first (g : Ground machine folder place) (hn : IsRecordName name)
    (free : machine.under place (Machine.temporaryName name 0) = none) (tries : Nat) :
    machine.freeTemporary folder name tries 0 = folder.child (Machine.temporaryName name 0) := by
  cases tries with
  | zero => rfl
  | succ tries =>
    rw [Machine.freeTemporary]
    simp only [g.find hn.temporary, free]

/-- The temporary file that is taken comes after names that all lead to something. -/
theorem exists_freeTemporary (machine : Machine) (folder : Path) (name : String)
    (tries number : Nat) : ∃ k, machine.freeTemporary folder name tries number =
      folder.child (Machine.temporaryName name k) ∧
      ∀ j, number ≤ j → j < k → ∃ found,
        machine.tree.find machine.directory (folder.child (Machine.temporaryName name j)) =
          .ok found := by
  induction tries generalizing number with
  | zero => exact ⟨number, rfl, fun j hj hk => absurd hk (Nat.not_lt.mpr hj)⟩
  | succ tries ih =>
    rw [Machine.freeTemporary]
    cases hf : machine.tree.find machine.directory
        (folder.child (Machine.temporaryName name number)) with
    | ok found =>
      obtain ⟨k, hk, passed⟩ := ih (number + 1)
      refine ⟨k, hk, fun j hj hlt => ?_⟩
      rcases Nat.lt_or_eq_of_le hj with hj | rfl
      · exact passed j hj hlt
      · exact ⟨found, hf⟩
    | error fault => exact ⟨number, rfl, fun j hj hk => absurd hk (Nat.not_lt.mpr hj)⟩

theorem under_of_find (g : Ground machine folder place) {found : Location × Node}
    (down : name ≠ "..")
    (hf : machine.tree.find machine.directory (folder.child name) = .ok found) :
    machine.under place name ≠ none ∧ Tree.isTooLong name = false := by
  by_cases long : Tree.isTooLong name = true
  · rw [Tree.find, Tree.locate_long g.leads g.stands down long] at hf
    cases hf
  · rw [Bool.not_eq_true] at long
    refine ⟨fun hu => ?_, long⟩
    rw [g.find ⟨down, long⟩, hu] at hf
    cases hf

/-- Making a temporary file either fails and changes nothing or makes it under the first name
under which nothing stood. -/
theorem createTemporary_cases (g : Ground machine folder place) (name : String) :
    (∃ fault, machine.answer (.createTemporary folder name) = (.error fault, machine)) ∨
    ∃ k, Tree.IsFileName (Machine.temporaryName name k) ∧
      (∀ j < k, machine.under place (Machine.temporaryName name j) ≠ none ∧
        Tree.isTooLong (Machine.temporaryName name j) = false) ∧
      machine.under place (Machine.temporaryName name k) = none ∧
      machine.answer (.createTemporary folder name) =
        (.ok (folder.child (Machine.temporaryName name k), machine.tree.nextNumber),
          Ground.withFile machine place (Machine.temporaryName name k) (Tree.masked 0o600) []) := by
  obtain ⟨k, hk, passed⟩ := exists_freeTemporary machine folder name machine.tree.nodes.length 0
  have taken (j : Nat) (hj : j < k) : machine.under place (Machine.temporaryName name j) ≠ none ∧
      Tree.isTooLong (Machine.temporaryName name j) = false := by
    obtain ⟨found, hf⟩ := passed j (Nat.zero_le j) hj
    exact under_of_find g (temporaryName_ne_up name j) hf
  have down := temporaryName_ne_up name k
  rw [Machine.answer, hk]
  by_cases long : Tree.isTooLong (Machine.temporaryName name k) = true
  · left
    have hl : machine.tree.createFile machine.directory
        (folder.child (Machine.temporaryName name k)) 0o600 = .error .nameTooLong := by
      rw [Tree.createFile, Tree.locate_long g.leads g.stands down long]
      rfl
    refine ⟨.nameTooLong, ?_⟩
    simp only [Machine.create, hl]
  · have ht : Tree.IsFileName (Machine.temporaryName name k) := ⟨down, Bool.not_eq_true _ ▸ long⟩
    have hc := g.create_child ht 0o600
    cases hu : machine.under place (Machine.temporaryName name k) with
    | some node =>
      rw [hu] at hc
      exact Or.inl ⟨.present, by simp only [hc]⟩
    | none =>
      rw [hu] at hc
      exact Or.inr ⟨k, ht, taken, hu, by simp only [hc]⟩

/-- A temporary file that was made is filled and given its permissions. -/
theorem exists_filled (g : Ground machine folder place) {temp : String}
    (ht : Tree.IsFileName temp) (free : machine.under place temp = none) (content : Octets) :
    ∃ filled allowed,
      (Ground.withFile machine place temp (Tree.masked 0o600) []).answer
        (.writeFile machine.tree.nextNumber content) = ((), filled) ∧
      filled.answer (.setMode (folder.child temp) privateMode) = (.ok (), allowed) ∧
      Ground allowed folder place ∧ allowed.keychain = machine.keychain ∧
      ∀ l, allowed.tree.node? l = if place ++ [temp] = l then
        some (.file machine.tree.nextNumber privateMode content) else machine.tree.node? l := by
  have make : machine.answer (.createFile (folder.child temp) 0o600) =
      (.ok machine.tree.nextNumber, Ground.withFile machine place temp (Tree.masked 0o600) []) := by
    have h := g.create_child ht 0o600
    rw [free] at h
    exact h
  have gmade := g.answer make (Ground.changedOnly_withFile temp _ [] free)
  obtain ⟨filled, hfilled⟩ : ∃ filled, ((), filled) =
      (Ground.withFile machine place temp (Tree.masked 0o600) []).answer
        (.writeFile machine.tree.nextNumber content) := ⟨_, rfl⟩
  have node_filled (l : Location) : filled.tree.node? l = if place ++ [temp] = l then
      some (.file machine.tree.nextNumber (Tree.masked 0o600) content)
      else machine.tree.node? l := by
    rw [(Prod.mk.inj hfilled).2]
    exact Ground.node?_filled g.numbered place temp (Tree.masked 0o600) content l
  have filled_only : ChangedOnly place (· = temp)
      (Ground.withFile machine place temp (Tree.masked 0o600) []) filled := by
    refine ⟨fun l hl => ?_, fun l hl => ?_⟩
    · rw [node_filled, Ground.node?_withFile, if_neg (Ne.symm (hl temp rfl)),
        if_neg (Ne.symm (hl temp rfl))]
    · rw [Tree.isDirectory_iff, Ground.node?_withFile] at hl
      rw [Tree.isDirectory_iff, node_filled]
      split_ifs at hl ⊢
      · obtain ⟨mode, hm⟩ := hl
        exact absurd hm (by simp)
      · exact hl
  have gfilled := gmade.answer hfilled.symm filled_only
  have under_temp : filled.under place temp =
      some (.file machine.tree.nextNumber (Tree.masked 0o600) content) := by
    rw [Machine.under, node_filled, if_pos rfl]
  have allow := gfilled.answer_setMode ht privateMode under_temp
  have nodes (l : Location) : (Ground.withNode filled place temp
      (.file machine.tree.nextNumber privateMode content)).tree.node? l = _ :=
    Ground.node?_withNode filled temp _ l
  refine ⟨filled, _, hfilled.symm, allow, gfilled.answer allow (Ground.changedOnly_of_node ?_ nodes),
    ?_, fun l => ?_⟩
  · simp [under_temp]
  · show filled.keychain = machine.keychain
    rw [(Prod.mk.inj hfilled).2]
    rfl
  · rw [nodes, node_filled]
    split_ifs <;> rfl

/-- Moving the filled file over the record file leaves only that changed. -/
theorem replaced_node? (name : String) {allowed : Machine} {temp : String}
    (free : machine.under place temp = none) {number : Nat} {content : Octets}
    (nodes : ∀ l, allowed.tree.node? l = if place ++ [temp] = l then
      some (.file number privateMode content) else machine.tree.node? l) (l : Location) :
    (Ground.withNode (Ground.without allowed place temp) place name
      (.file number privateMode content)).tree.node? l = if place ++ [name] = l then
        some (.file number privateMode content) else machine.tree.node? l := by
  rw [Ground.node?_withNode, Ground.node?_without, nodes]
  split_ifs with h₁ h₂
  · rfl
  · rw [← h₂]
    exact free.symm
  · rfl

/-- Once its temporary file was made, a record file is replaced unless a directory has its name.
The temporary file is gone in either case. -/
theorem replaceFile_of_make (g : Ground machine folder place) (hn : Tree.IsFileName name)
    {temp : String} (ht : Tree.IsFileName temp) (hne : temp ≠ name)
    (free : machine.under place temp = none)
    (make : machine.answer (.createTemporary folder name) =
      (.ok (folder.child temp, machine.tree.nextNumber),
        Ground.withFile machine place temp (Tree.masked 0o600) [])) (content : Octets) :
    ∃ outcome after, (replaceFile (folder.child name) content).exec machine = (outcome, after) ∧
      after.keychain = machine.keychain ∧
      ((outcome = .ok () ∧ (∀ mode, machine.under place name ≠ some (.directory mode)) ∧
          ∀ l, after.tree.node? l = if place ++ [name] = l then
            some (.file machine.tree.nextNumber privateMode content) else machine.tree.node? l) ∨
        (outcome = .error (.file .isDirectory) ∧
          (∃ mode, machine.under place name = some (.directory mode)) ∧
          ∀ l, after.tree.node? l = machine.tree.node? l)) := by
  obtain ⟨filled, allowed, fill, allow, gallowed, keys, nodes⟩ := exists_filled g ht free content
  have hu : allowed.under place temp = some (.file machine.tree.nextNumber privateMode content) := by
    rw [Machine.under, nodes, if_pos rfl]
  have hname : allowed.under place name = machine.under place name := by
    rw [Machine.under, nodes, if_neg (by simpa using hne), Machine.under]
  by_cases plain : ∀ mode, machine.under place name ≠ some (.directory mode)
  · have move := gallowed.answer_rename ht hn hu fun mode => hname ▸ plain mode
    refine ⟨_, _, ?_, ?_, Or.inl ⟨rfl, plain, replaced_node? name free nodes⟩⟩
    · rw [replaceFile, Path.parent_child, Path.name_child]
      refine (Action.exec_ask_bind make).trans ((Action.exec_bind_ok rfl).trans ?_)
      refine (Action.exec_ask_bind fill).trans ((Action.exec_ask_bind allow).trans ?_)
      exact Action.exec_ask_bind move
    · exact keys
  · have taken : ∃ mode, machine.under place name = some (.directory mode) := by simpa using plain
    have stuck := gallowed.answer_rename_directory ht hn hu (hname.symm ▸ taken)
    have away := gallowed.answer_unlink ht
    rw [hu] at away
    refine ⟨_, Ground.without allowed place temp, ?_, keys, Or.inr ⟨rfl, taken, fun l => ?_⟩⟩
    · rw [replaceFile, Path.parent_child, Path.name_child]
      refine (Action.exec_ask_bind make).trans ((Action.exec_bind_ok rfl).trans ?_)
      refine (Action.exec_ask_bind fill).trans ((Action.exec_ask_bind allow).trans ?_)
      refine (Action.exec_ask_bind stuck).trans ?_
      exact (Action.exec_ask_bind away).trans rfl
    · rw [Ground.node?_without, nodes]
      split_ifs with hl
      · rw [← hl]
        exact free.symm
      · rfl

theorem replaceFile_exec (g : Ground machine folder place) (hn : IsRecordName name)
    (w : Writable machine place name) (content : Octets) :
    ∃ after, (replaceFile (folder.child name) content).exec machine = (.ok (), after) ∧
      ChangedOnly place (· = name) machine after ∧
      (∃ number, after.under place name = some (.file number privateMode content)) ∧
      after.keychain = machine.keychain := by
  have make : machine.answer (.createTemporary folder name) =
      (.ok (folder.child (Machine.temporaryName name 0), machine.tree.nextNumber),
        Ground.withFile machine place (Machine.temporaryName name 0) (Tree.masked 0o600) []) := by
    have h := g.create_child hn.temporary 0o600
    rw [w.free] at h
    rw [Machine.answer]
    simp only [freeTemporary_first g hn w.free machine.tree.nodes.length, h]
  obtain ⟨outcome, after, he, keys, ⟨rfl, -, nodes⟩ | ⟨-, ⟨mode, hm⟩, -⟩⟩ :=
    replaceFile_of_make g hn.file hn.temporary (temporaryName_ne name 0) w.free make content
  · refine ⟨after, he, Ground.changedOnly_of_node w.plain nodes, ⟨machine.tree.nextNumber, ?_⟩, keys⟩
    rw [Machine.under, nodes, if_pos rfl]
  · exact absurd hm (w.plain mode)

/-- Whatever stands in the way, replacing a record file touches at most it and the temporary
files beside it. -/
theorem replaceFile_confined (hn : Tree.IsFileName name) (content : Octets) :
    (replaceFile (folder.child name) content).Confined folder place
      fun other => other = name ∨ ∃ k, other = Machine.temporaryName name k := by
  intro machine g
  rcases createTemporary_cases g name with ⟨fault, hc⟩ | ⟨k, ht, -, free, make⟩
  · rw [replaceFile, Path.parent_child, Path.name_child, Action.exec_ask_bind hc]
    exact .refl _
  obtain ⟨outcome, after, he, -, ⟨-, plain, nodes⟩ | ⟨-, -, nodes⟩⟩ :=
    replaceFile_of_make g hn ht (temporaryName_ne name k) free make content
  · rw [he]
    exact (Ground.changedOnly_of_node plain nodes).mono fun other ho => Or.inl ho
  · rw [he]
    refine ⟨fun l _ => nodes l, fun l hl => ?_⟩
    rw [Tree.isDirectory_iff] at hl ⊢
    rw [nodes]
    exact hl

theorem removeFile_confined (hn : Tree.IsFileName name) :
    (removeFile (folder.child name)).Confined folder place (· = name) := by
  refine .bind (Ground.unlink_confined hn) fun result => ?_
  split
  · exact .pure _
  · exact .pure _
  · exact .of_passive (.throw _)

theorem unlink_keychain (path : Path) : (Action.ask (.unlink path)).Keeps Machine.keychain := by
  refine .ask fun machine => ?_
  show (machine.edit _).2.keychain = machine.keychain
  cases machine.tree.unlink machine.directory path <;> rfl

theorem removeFile_keychain (path : Path) : (removeFile path).Keeps Machine.keychain := by
  refine (unlink_keychain path).bind fun result => ?_
  split
  · exact .pure _
  · exact .pure _
  · exact .throw _

end SessionKeeper.Record
