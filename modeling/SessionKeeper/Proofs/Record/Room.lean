import SessionKeeper.Proofs.Disk.Paved
import SessionKeeper.Proofs.Record.Store
import SessionKeeper.Proofs.Time.Stored

/-!
# Room for a temporary file

The temporary file of a record file gets the first name, by number, under which nothing
stands. Different numbers are different names, so among as many names as the tree has
nodes and one more there is a free one. Whether a record file can be replaced comes down
to whether that name is short enough and no directory has the name of the file.
-/
namespace SessionKeeper.Record

variable {machine : Machine} {folder : Path} {place : Location} {name : String}

theorem temporaryName_injective (stem : String) {j k : Nat}
    (h : Machine.temporaryName stem j = Machine.temporaryName stem k) : j = k := by
  have hl := congrArg String.toList h
  simp only [Machine.temporaryName, String.toList_append, String.toList_ofList,
    List.append_assoc] at hl
  have hp : paddedChars 8 j ++ ".tmp".toList = paddedChars 8 k ++ ".tmp".toList := by
    rw [paddedChars, paddedChars, List.append_assoc, List.append_assoc]
    exact List.append_cancel_left (List.append_cancel_left (List.append_cancel_left hl))
  rw [← ofDigits_paddedChars 8 j, ← ofDigits_paddedChars 8 k, List.append_cancel_right hp]

/-- A file whose temporary files have names that are short enough has such a name itself. -/
theorem isTooLong_of_temporaryName {k : Nat}
    (h : Tree.isTooLong (Machine.temporaryName name k) = false) : Tree.isTooLong name = false := by
  rw [Tree.isTooLong, decide_eq_false_iff_not] at h ⊢
  have hs : name.utf8ByteSize ≤ (Machine.temporaryName name k).utf8ByteSize := by
    simp only [Machine.temporaryName, String.utf8ByteSize_append]
    omega
  omega

theorem le_length_nodes {k : Nat}
    (taken : ∀ j < k, machine.under place (Machine.temporaryName name j) ≠ none) :
    k ≤ machine.tree.nodes.length := by
  have distinct : ((List.range k).map fun j => place ++ [Machine.temporaryName name j]).Nodup := by
    refine List.Nodup.map ?_ List.nodup_range
    intro i j hij
    exact temporaryName_injective name (List.singleton_injective (List.append_cancel_left hij))
  have within : ((List.range k).map fun j => place ++ [Machine.temporaryName name j]) ⊆
      Assoc.keys machine.tree.nodes := by
    intro l hl
    obtain ⟨j, hj, rfl⟩ := List.mem_map.mp hl
    have hn := taken j (List.mem_range.mp hj)
    rw [Machine.under, Tree.node?, if_neg (by simp), ne_eq, Assoc.value?_eq_none, not_not] at hn
    exact hn
  have hle := (List.subperm_of_subset distinct within).length_le
  rwa [List.length_map, List.length_range, Assoc.keys, List.length_map] at hle

/-- That the first free name for a temporary file is short enough, as those before it are. -/
def HasRoom (machine : Machine) (place : Location) (name : String) : Prop :=
  ∃ k, (∀ j < k, machine.under place (Machine.temporaryName name j) ≠ none ∧
      Tree.isTooLong (Machine.temporaryName name j) = false) ∧
    machine.under place (Machine.temporaryName name k) = none ∧
    Tree.IsFileName (Machine.temporaryName name k)

theorem HasRoom.of_under {after : Machine} (h : HasRoom machine place name)
    (same : ∀ k, after.under place (Machine.temporaryName name k) =
      machine.under place (Machine.temporaryName name k)) : HasRoom after place name := by
  obtain ⟨k, taken, free, short⟩ := h
  refine ⟨k, fun j hj => ?_, ?_, short⟩
  · rw [same]
    exact taken j hj
  · rw [same]
    exact free

theorem HasRoom.isFileName (h : HasRoom machine place name) (down : name ≠ "..") :
    Tree.IsFileName name := by
  obtain ⟨k, -, -, ht⟩ := h
  exact ⟨down, isTooLong_of_temporaryName ht.short⟩

/-- Names under which something stands are passed over. -/
theorem freeTemporary_eq (g : Ground machine folder place) {k : Nat}
    (taken : ∀ j < k, machine.under place (Machine.temporaryName name j) ≠ none ∧
      Tree.isTooLong (Machine.temporaryName name j) = false) {fault : FileFault}
    (stops : machine.tree.find machine.directory
      (folder.child (Machine.temporaryName name k)) = .error fault) :
    machine.freeTemporary folder name machine.tree.nodes.length 0 =
      folder.child (Machine.temporaryName name k) := by
  have first (tries number : Nat) (hn : number ≤ k) (hk : k ≤ number + tries) :
      machine.freeTemporary folder name tries number =
        folder.child (Machine.temporaryName name k) := by
    induction tries generalizing number with
    | zero =>
      obtain rfl : number = k := by omega
      rfl
    | succ tries ih =>
      rw [Machine.freeTemporary]
      rcases Nat.lt_or_eq_of_le hn with hlt | rfl
      · obtain ⟨stands, short⟩ := taken number hlt
        obtain ⟨node, hu⟩ := Option.ne_none_iff_exists'.mp stands
        simp only [g.find ⟨temporaryName_ne_up name number, short⟩, hu]
        exact ih (number + 1) hlt (by omega)
      · simp only [stops]
  have within := le_length_nodes fun j hj => (taken j hj).1
  exact first machine.tree.nodes.length 0 (Nat.zero_le k) (by omega)

theorem createTemporary_of_hasRoom (g : Ground machine folder place)
    (room : HasRoom machine place name) :
    ∃ k, Tree.IsFileName (Machine.temporaryName name k) ∧
      machine.under place (Machine.temporaryName name k) = none ∧
      machine.answer (.createTemporary folder name) =
        (.ok (folder.child (Machine.temporaryName name k), machine.tree.nextNumber),
          Ground.withFile machine place (Machine.temporaryName name k) (Tree.masked 0o600) []) := by
  obtain ⟨k, taken, free, ht⟩ := room
  refine ⟨k, ht, free, ?_⟩
  have stops := g.find ht
  rw [free] at stops
  have made := g.create_child ht 0o600
  rw [free] at made
  rw [Machine.answer, freeTemporary_eq g taken stops]
  simp only [made]

theorem createTemporary_without_room (g : Ground machine folder place)
    (full : ¬ HasRoom machine place name) :
    machine.answer (.createTemporary folder name) = (.error .nameTooLong, machine) := by
  have some_free : ∃ k, machine.under place (Machine.temporaryName name k) = none ∨
      Tree.isTooLong (Machine.temporaryName name k) = true := by
    by_contra none_free
    push Not at none_free
    have bound := le_length_nodes (k := machine.tree.nodes.length + 1)
      fun j _ => (none_free j).1
    omega
  classical
  let k := Nat.find some_free
  have taken (j : Nat) (hj : j < k) : machine.under place (Machine.temporaryName name j) ≠ none ∧
      Tree.isTooLong (Machine.temporaryName name j) = false := by
    have passed := Nat.find_min some_free hj
    push Not at passed
    exact ⟨passed.1, by simpa using passed.2⟩
  have down := temporaryName_ne_up name k
  have long : Tree.isTooLong (Machine.temporaryName name k) = true := by
    by_contra short
    rw [Bool.not_eq_true] at short
    rcases Nat.find_spec some_free with free | long
    · exact full ⟨k, taken, free, down, short⟩
    · exact absurd long (by simpa using short)
  have lost := Tree.locate_long g.leads g.stands down long
  have stops : machine.tree.find machine.directory
      (folder.child (Machine.temporaryName name k)) = .error .nameTooLong := by
    rw [Tree.find, lost]
    rfl
  have refused : machine.tree.createFile machine.directory
      (folder.child (Machine.temporaryName name k)) 0o600 = .error .nameTooLong := by
    rw [Tree.createFile, lost]
    rfl
  rw [Machine.answer, freeTemporary_eq g taken stops]
  simp only [Machine.create, refused]

/-- How replacing a record file ends: it is done where there is room and no directory has the
name, and otherwise nothing has changed. -/
theorem replaceFile_ends (g : Ground machine folder place) (down : name ≠ "..")
    (content : Octets) :
    ∃ outcome after, (replaceFile (folder.child name) content).exec machine = (outcome, after) ∧
      after.keychain = machine.keychain ∧
      ((outcome = .ok () ∧ HasRoom machine place name ∧
          (∀ mode, machine.under place name ≠ some (.directory mode)) ∧
          ∃ number, ∀ l, after.tree.node? l = if place ++ [name] = l then
            some (.file number privateMode content) else machine.tree.node? l) ∨
        (outcome = .error (.file .isDirectory) ∧ HasRoom machine place name ∧
          (∃ mode, machine.under place name = some (.directory mode)) ∧
          ∀ l, after.tree.node? l = machine.tree.node? l) ∨
        (outcome = .error (.file .nameTooLong) ∧ ¬ HasRoom machine place name ∧
          ∀ l, after.tree.node? l = machine.tree.node? l)) := by
  by_cases room : HasRoom machine place name
  · obtain ⟨k, ht, free, make⟩ := createTemporary_of_hasRoom g room
    obtain ⟨outcome, after, he, keys, ⟨rfl, plain, nodes⟩ | ⟨rfl, taken, nodes⟩⟩ :=
      replaceFile_of_make g (room.isFileName down) ht (temporaryName_ne name k) free make content
    · exact ⟨_, after, he, keys, .inl ⟨rfl, room, plain, _, nodes⟩⟩
    · exact ⟨_, after, he, keys, .inr (.inl ⟨rfl, room, taken, nodes⟩)⟩
  · refine ⟨_, machine, ?_, rfl, .inr (.inr ⟨rfl, room, fun _ => rfl⟩)⟩
    rw [replaceFile, Path.parent_child, Path.name_child,
      Action.exec_ask_bind (createTemporary_without_room g room)]
    rfl

/-- What replacing a record file does whatever is in the way: there is room, and it changes the
file and nothing else, or a file operation fails and nothing has changed. -/
theorem replaceFile_cases (g : Ground machine folder place) (down : name ≠ "..")
    (content : Octets) :
    ∃ outcome after, (replaceFile (folder.child name) content).exec machine = (outcome, after) ∧
      after.keychain = machine.keychain ∧
      ((outcome = .ok () ∧ HasRoom machine place name ∧
          ChangedOnly place (· = name) machine after ∧
          ∃ number, after.under place name = some (.file number privateMode content)) ∨
        ((∃ fault, outcome = .error (.file fault)) ∧
          ∀ l, after.tree.node? l = machine.tree.node? l)) := by
  obtain ⟨outcome, after, he, keys, ⟨rfl, room, plain, number, nodes⟩ | ⟨rfl, -, -, nodes⟩ |
    ⟨rfl, -, nodes⟩⟩ := replaceFile_ends g down content
  · refine ⟨_, after, he, keys, Or.inl ⟨rfl, room, Ground.changedOnly_of_node plain nodes,
      number, ?_⟩⟩
    rw [Machine.under, nodes, if_pos rfl]
  · exact ⟨_, after, he, keys, Or.inr ⟨⟨_, rfl⟩, nodes⟩⟩
  · exact ⟨_, after, he, keys, Or.inr ⟨⟨_, rfl⟩, nodes⟩⟩

theorem replaceFile_of_hasRoom (g : Ground machine folder place) (down : name ≠ "..")
    (room : HasRoom machine place name)
    (plain : ∀ mode, machine.under place name ≠ some (.directory mode)) (content : Octets) :
    ∃ after, (replaceFile (folder.child name) content).exec machine = (.ok (), after) := by
  obtain ⟨k, ht, free, make⟩ := createTemporary_of_hasRoom g room
  obtain ⟨outcome, after, he, -, ⟨rfl, -, -⟩ | ⟨-, ⟨mode, hm⟩, -⟩⟩ :=
    replaceFile_of_make g (room.isFileName down) ht (temporaryName_ne name k) free make content
  · exact ⟨after, he⟩
  · exact absurd hm (plain mode)

end SessionKeeper.Record
