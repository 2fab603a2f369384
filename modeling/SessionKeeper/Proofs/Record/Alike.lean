import SessionKeeper.Proofs.Lock.Spans
import SessionKeeper.Proofs.Record.Room

/-!
# Machines that are alike but for one file

Two machines are alike but for the file of one name in a folder when nothing else about them
differs that an operation on files could see. The numbers of files may differ, and so may the
keychains. Whatever is done with other files of the folder ends the same on both and leaves them
alike, so that such machines look the same as long as the hidden file and the keychain are left
alone.
-/
namespace SessionKeeper

/-- What can be seen of a node: everything but the number of a file. -/
def Node.bare : Node → Node
  | .file _ mode content => .file 0 mode content
  | .directory mode => .directory mode

/-- How many requests the keyserver has had, and the lines that are left to read. -/
def Machine.progress (machine : Machine) : Nat × List Text := (machine.requests, machine.input)

theorem Machine.edit_progress (machine : Machine) (result : Except FileFault Tree) :
    (machine.edit result).2.progress = machine.progress := by
  cases result <;> rfl

theorem Machine.create_progress (machine : Machine) (path : Path) (mode : Nat) :
    (machine.create path mode).2.progress = machine.progress := by
  rw [create]
  cases machine.tree.createFile machine.directory path mode <;> rfl

/-- That an operation sends no request to the keyserver and reads no line. -/
abbrev Action.IsOffline {α : Type} (action : Action α) : Prop := action.Keeps Machine.progress

namespace Record

theorem log_offline (level : Level) (channel : Channel) (message : String) :
    (Action.log level channel message).IsOffline := fun _ => rfl

variable [Runtime]

theorem read_offline (path : Path) : (Record.read path).IsOffline := by
  refine .bind (.ask fun _ => rfl) fun answer => ?_
  split
  · exact .pure _
  · exact (log_offline _ _ _).bind fun _ => .pure _
  · split
    · exact .throw _
    · exact (log_offline _ _ _).bind fun _ => .pure _
    · exact .pure _

omit [Runtime] in
theorem isThere_offline (path : Path) : (Folder.isThere path).IsOffline := by
  refine .bind (.ask fun _ => rfl) fun answer => ?_
  split
  · exact .pure _
  · exact .pure _
  · exact .pure _
  · exact .throw _

omit [Runtime] in
theorem accept_offline (path : Path) (fault : FileFault) :
    (Folder.accept path fault).IsOffline := by
  refine (isThere_offline path).bind fun there => ?_
  split
  · exact .pure _
  · exact .throw _

omit [Runtime] in
theorem makeWithin_offline (height : Nat) (path : Path) (mode : Nat) :
    (Folder.makeWithin height path mode).IsOffline := by
  induction height generalizing path mode with
  | zero =>
    rw [Folder.makeWithin.eq_def]
    refine .bind (.ask fun machine => machine.edit_progress _) fun made => ?_
    split
    · exact .pure _
    · exact .throw _
    · exact accept_offline _ _
  | succ height ih =>
    rw [Folder.makeWithin.eq_def]
    refine .bind (.ask fun machine => machine.edit_progress _) fun made => ?_
    split
    · exact .pure _
    · refine (ih _ _).bind fun _ => ?_
      refine .bind (.ask fun machine => machine.edit_progress _) fun made => ?_
      split
      · exact .pure _
      · exact .throw _
      · exact accept_offline _ _
    · exact accept_offline _ _

omit [Runtime] in
theorem removeFile_offline (path : Path) : (removeFile path).IsOffline := by
  refine .bind (.ask fun machine => machine.edit_progress _) fun removed => ?_
  split
  · exact .pure _
  · exact .pure _
  · exact .throw _

omit [Runtime] in
/-- Replacing a file has nothing to do with the keyserver or the lines to read. -/
theorem replaceFile_offline (path : Path) (content : Octets) :
    (replaceFile path content).IsOffline := by
  have discard (temporary : Path) (fault : FileFault) :
      (discard temporary fault : Action Unit).IsOffline :=
    .bind (.ask fun machine => machine.edit_progress _) fun _ => .throw _
  refine .bind (.ask fun machine => ?_) fun made => .bind ?_ fun temporary => ?_
  · rw [machine.answer_createTemporary]
    exact machine.create_progress _ _
  · cases made with
    | ok temporary => exact .pure _
    | error fault => exact .throw _
  · refine .bind (.ask fun _ => rfl) fun _ => ?_
    refine .bind (.ask fun machine => machine.edit_progress _) fun allowed => ?_
    split
    · exact discard _ _
    · refine .bind (.ask fun machine => machine.edit_progress _) fun renamed => ?_
      split
      · exact discard _ _
      · exact .pure _

namespace Store

theorem entries_offline (store : Store) : store.entries.IsOffline :=
  (read_offline store.path).bind fun _ => .pure _

theorem replace_offline (store : Store) (entries : Assoc Text Json) :
    (store.replace entries).IsOffline := by
  unfold replace
  split
  · refine (removeFile_offline store.path).bind fun removed => ?_
    split
    · exact log_offline _ _ _
    · exact .pure _
  · unfold write
    split
    · exact .throw _
    · exact (makeWithin_offline _ _ _).bind fun _ => replaceFile_offline _ _

end Store

end Record

/-- Whether a name is the hidden one or that of the temporary file beside it. -/
def IsVeiled (hidden name : String) : Prop := name = hidden ∨ name = Machine.temporaryName hidden 0

/-- That two machines differ at most in the file under the hidden name at a place, in the numbers
of files, in their keychains and in what they have shown. -/
structure Machine.AlikeBut (place : Location) (hidden : String) (m n : Machine) : Prop where
  directory : n.directory = m.directory
  now : n.now = m.now
  processId : n.processId = m.processId
  environment : n.environment = m.environment
  homes : n.homes = m.homes
  keyserver : n.keyserver = m.keyserver
  progress : n.progress = m.progress
  nodes (l : Location) (hl : l ≠ place ++ [hidden]) :
    (n.tree.node? l).map Node.bare = (m.tree.node? l).map Node.bare

/-- What a machine goes through when the hidden file and the keychain are left alone. -/
structure Machine.Passed (place : Location) (hidden : String) (before after : Machine) : Prop where
  only : ChangedOnly place (¬ IsVeiled hidden ·) before after
  keychain : after.keychain = before.keychain
  fixed : before.SameCircumstances after
  numbered : before.tree.Numbered → after.tree.Numbered

namespace Machine.Passed

variable {place : Location} {hidden : String} {before after : Machine}

theorem of_exec {α : Type} {action : Action α} {folder : Path} {machine : Machine}
    (g : Ground machine folder place)
    (confined : action.Confined folder place (¬ IsVeiled hidden ·))
    (keychain : (action.exec machine).2.keychain = machine.keychain) :
    Passed place hidden machine (action.exec machine).2 :=
  ⟨confined machine g, keychain, .of_exec action machine,
    fun numbered => numbered.of_run action.run⟩

theorem ground {folder : Path} (h : Passed place hidden before after)
    (g : Ground before folder place) : Ground after folder place :=
  g.kept h.only h.fixed (h.numbered g.numbered)

theorem hidden_under (h : Passed place hidden before after) :
    after.under place hidden = before.under place hidden :=
  h.only.under (not_not.mpr (.inl rfl))

theorem temporary_under (h : Passed place hidden before after) :
    after.under place (temporaryName hidden 0) = before.under place (temporaryName hidden 0) :=
  h.only.under (not_not.mpr (.inr rfl))

end Machine.Passed

namespace Machine.AlikeBut

variable {place : Location} {hidden name : String} {m n m' n' : Machine}

/-- Machines that were alike are so again when the same came to stand everywhere. -/
theorem after (h : AlikeBut place hidden m n) (left : m.SameCircumstances m')
    (right : n.SameCircumstances n') (progress : n'.progress = m'.progress)
    (nodes : ∀ l, l ≠ place ++ [hidden] →
      (n'.tree.node? l).map Node.bare = (m'.tree.node? l).map Node.bare) :
    AlikeBut place hidden m' n' where
  directory := by rw [left.directory, right.directory, h.directory]
  now := by rw [left.now, right.now, h.now]
  processId := by rw [left.processId, right.processId, h.processId]
  environment := by rw [left.environment, right.environment, h.environment]
  homes := by rw [left.homes, right.homes, h.homes]
  keyserver := by rw [left.keyserver, right.keyserver, h.keyserver]
  progress := progress
  nodes := nodes

theorem under (h : AlikeBut place hidden m n) (other : name ≠ hidden) :
    (n.under place name).map Node.bare = (m.under place name).map Node.bare :=
  h.nodes _ fun same => other (List.singleton_injective (List.append_cancel_left same))

theorem contentOf_eq (h : AlikeBut place hidden m n) (other : name ≠ hidden) :
    Ground.contentOf (n.under place name) = Ground.contentOf (m.under place name) := by
  have same := h.under other
  rcases hm : m.under place name with _ | ⟨_ | _⟩ <;>
    rcases hn : n.under place name with _ | ⟨_ | _⟩ <;> simp_all [Node.bare, Ground.contentOf]

theorem kindOf_eq (h : AlikeBut place hidden m n) (other : name ≠ hidden) :
    Ground.kindOf (n.under place name) = Ground.kindOf (m.under place name) := by
  have same := h.under other
  rcases hm : m.under place name with _ | ⟨_ | _⟩ <;>
    rcases hn : n.under place name with _ | ⟨_ | _⟩ <;>
    simp_all [Node.bare, Ground.kindOf, Node.kind]

theorem under_eq_none (h : AlikeBut place hidden m n) (other : name ≠ hidden) :
    n.under place name = none ↔ m.under place name = none := by
  rw [← Option.map_eq_none_iff, h.under other, Option.map_eq_none_iff]

theorem isDirectory_iff (h : AlikeBut place hidden m n) (other : name ≠ hidden) :
    (∃ mode, n.under place name = some (.directory mode)) ↔
      ∃ mode, m.under place name = some (.directory mode) := by
  have same := h.under other
  rcases hm : m.under place name with _ | ⟨_ | _⟩ <;>
    rcases hn : n.under place name with _ | ⟨_ | _⟩ <;> simp_all [Node.bare]

end Machine.AlikeBut

/-- That a folder stands on two machines that are alike but for the hidden file, and that something
more is true of the two. -/
structure Machine.Beside (folder : Path) (place : Location) (hidden : String)
    (extra : Machine → Machine → Prop) (m n : Machine) : Prop where
  left : Ground m folder place
  right : Ground n folder place
  alike : AlikeBut place hidden m n
  extra : extra m n

/-- That what is true of two machines stays true while the hidden file and the keychains are left
alone. -/
def IsVeiledFact (place : Location) (hidden : String) (extra : Machine → Machine → Prop) : Prop :=
  ∀ m n m' n', extra m n → m.Passed place hidden m' → n.Passed place hidden n' → extra m' n'

/-- The likeness of machines that are alike but for the hidden file. -/
def Likeness.beside (folder : Path) (place : Location) (hidden : String)
    (extra : Machine → Machine → Prop) : Likeness :=
  .ofRelation (Machine.Beside folder place hidden extra)

/-- The files that look the same: those whose names, and the names of whose temporary files, are
not veiled. -/
structure IsPlainName (hidden name : String) : Prop where
  file : Tree.IsFileName name
  veiled : ¬ IsVeiled hidden name
  temporary : ∀ k, Machine.temporaryName name k ≠ hidden

/-- That a file was just created on both machines under one name, with these numbers. -/
structure Machine.Opened (folder : Path) (place : Location) (hidden : String)
    (extra : Machine → Machine → Prop) (j k : Nat) (m n : Machine) : Prop where
  beside : Beside folder place hidden extra m n
  created : ∃ name mode, ¬ IsVeiled hidden name ∧ m.under place name = some (.file j mode []) ∧
    n.under place name = some (.file k mode [])

section Beside

variable {folder : Path} {place : Location} {hidden name : String}
  {extra : Machine → Machine → Prop} {m n m' n' : Machine}

theorem Machine.Beside.after (veiled : IsVeiledFact place hidden extra)
    (h : Beside folder place hidden extra m n) (left : m.Passed place hidden m')
    (right : n.Passed place hidden n') (alike : AlikeBut place hidden m' n') :
    Beside folder place hidden extra m' n' :=
  ⟨left.ground h.left, right.ground h.right, alike, veiled _ _ _ _ h.extra left right⟩

/-- Nothing but one file was touched, which came to be the same on both machines. -/
theorem Machine.AlikeBut.changed (h : AlikeBut place hidden m n) {p q : Option Node}
    (same : q.map Node.bare = p.map Node.bare)
    (left : ∀ l, m'.tree.node? l = if place ++ [name] = l then p else m.tree.node? l)
    (right : ∀ l, n'.tree.node? l = if place ++ [name] = l then q else n.tree.node? l)
    (l : Location) (hl : l ≠ place ++ [hidden]) :
    (n'.tree.node? l).map Node.bare = (m'.tree.node? l).map Node.bare := by
  rw [left, right]
  split_ifs
  · exact same
  · exact h.nodes l hl

theorem Likeness.agrees_beside {α β : Type} {V : α → β → Prop} {x : Action α} {y : Action β}
    (veiled : IsVeiledFact place hidden extra)
    (left : ∀ m, Ground m folder place → m.Passed place hidden (x.exec m).2)
    (right : ∀ n, Ground n folder place → n.Passed place hidden (y.exec n).2)
    (same : ∀ m n, Ground m folder place → Ground n folder place → m.AlikeBut place hidden n →
      SameOutcome V (x.exec m).1 (y.exec n).1 ∧ (x.exec m).2.AlikeBut place hidden (y.exec n).2) :
    Action.Agrees (.beside folder place hidden extra) V x y := by
  refine .of_exec fun m n h => ?_
  obtain ⟨outcome, alike⟩ := same m n h.left h.right h.alike
  exact ⟨outcome, h.after veiled (left m h.left) (right n h.right) alike⟩

theorem IsPlainName.ne (h : IsPlainName hidden name) : name ≠ hidden :=
  fun same => h.veiled (.inl same)

theorem Machine.AlikeBut.unlink (h : AlikeBut place hidden m n) (left : Ground m folder place)
    (right : Ground n folder place) (hn : IsPlainName hidden name) :
    (m.answer (.unlink (folder.child name))).1 = (n.answer (.unlink (folder.child name))).1 ∧
      AlikeBut place hidden (m.answer (.unlink (folder.child name))).2
        (n.answer (.unlink (folder.child name))).2 := by
  have same := h.under hn.ne
  rw [left.answer_unlink hn.file, right.answer_unlink hn.file]
  rcases hm : m.under place name with _ | ⟨_ | _⟩ <;>
    rcases hn : n.under place name with _ | ⟨_ | _⟩ <;> rw [hm, hn] at same <;>
    first | exact ⟨rfl, h⟩ | cases same
  exact ⟨rfl, h.after ⟨rfl, rfl, rfl, rfl, rfl, rfl, rfl⟩ ⟨rfl, rfl, rfl, rfl, rfl, rfl, rfl⟩
    h.progress (h.changed rfl (Ground.node?_without m name) (Ground.node?_without n name))⟩

/-- Creating a file is refused on both machines or done on both. -/
theorem Machine.Beside.createFile (veiled : IsVeiledFact place hidden extra)
    (h : Beside folder place hidden extra m n) (hn : IsPlainName hidden name) (mode : Nat) :
    (Likeness.beside folder place hidden extra).Created (Opened folder place hidden extra)
      (m.create (folder.child name) mode).1 (n.create (folder.child name) mode).1
      (m.create (folder.child name) mode).2 (n.create (folder.child name) mode).2 := by
  have same := h.alike.under_eq_none hn.ne
  rw [h.left.create_child hn.file, h.right.create_child hn.file]
  cases hm : m.under place name with
  | some node =>
    obtain ⟨other, hu⟩ := Option.ne_none_iff_exists'.mp fun none_there =>
      absurd (same.mp none_there) (by rw [hm]; exact Option.some_ne_none node)
    rw [hu]
    exact .error _ h
  | none =>
    rw [same.mpr hm]
    have passed (machine : Machine) (g : Ground machine folder place)
        (free : machine.under place name = none) : machine.Passed place hidden
          (Ground.withFile machine place name (Tree.masked mode) []) := by
      have made := g.create_child hn.file mode
      rw [free] at made
      have numbered := machine.create_numbered (folder.child name) mode g.numbered
      have fixed := machine.create_fixed (folder.child name) mode
      rw [made] at numbered fixed
      exact ⟨(Ground.changedOnly_withFile name _ _ free).mono fun _ hother => hother ▸ hn.veiled,
        rfl, fixed, fun _ => numbered⟩
    have left := passed m h.left hm
    have right := passed n h.right (same.mpr hm)
    refine .ok ⟨h.after veiled left right (h.alike.after left.fixed right.fixed h.alike.progress
      (h.alike.changed ?_ (Ground.node?_withFile m name _ _) (Ground.node?_withFile n name _ _))),
      name, Tree.masked mode, hn.veiled, Ground.under_withFile _ _ _ _ _,
      Ground.under_withFile _ _ _ _ _⟩
    rfl

/-- What is written into files that were created together is the same on both machines. -/
theorem Machine.Opened.writeFile (veiled : IsVeiledFact place hidden extra) {j k : Nat}
    (h : Opened folder place hidden extra j k m n) (content : Octets) :
    Beside folder place hidden extra (m.answer (.writeFile j content)).2
      (n.answer (.writeFile k content)).2 := by
  obtain ⟨name, mode, plain, hm, hn⟩ := h.created
  have passed (machine : Machine) (number : Nat) (g : Ground machine folder place)
      (there : machine.under place name = some (.file number mode [])) :
      machine.Passed place hidden (machine.answer (.writeFile number content)).2 :=
    ⟨(g.answer_writeFile there content).1.mono fun _ hother => hother ▸ plain, rfl,
      machine.answer_fixed _, machine.answer_numbered _⟩
  have nodes (machine : Machine) (number : Nat) (g : Ground machine folder place)
      (there : machine.under place name = some (.file number mode [])) (l : Location) :
      (machine.answer (.writeFile number content)).2.tree.node? l =
        if place ++ [name] = l then some (.file number mode content) else machine.tree.node? l := by
    obtain ⟨only, written⟩ := g.answer_writeFile there content
    split_ifs with hl
    · rw [← hl]
      exact written
    · exact only.elsewhere l fun other same => by rw [same]; exact Ne.symm hl
  have left := passed m j h.beside.left hm
  have right := passed n k h.beside.right hn
  exact h.beside.after veiled left right (h.beside.alike.after left.fixed right.fixed
    h.beside.alike.progress (h.beside.alike.changed (by rfl) (nodes m j h.beside.left hm)
      (nodes n k h.beside.right hn)))

theorem Machine.AlikeBut.hasRoom (h : AlikeBut place hidden m n) (hn : IsPlainName hidden name) :
    Record.HasRoom n place name ↔ Record.HasRoom m place name := by
  have same (k : Nat) := h.under_eq_none (hn.temporary k)
  unfold Record.HasRoom
  simp only [ne_eq, same]

variable [Runtime]

omit [Runtime] in
theorem Machine.AlikeBut.replaceFile (h : AlikeBut place hidden m n) (left : Ground m folder place)
    (right : Ground n folder place) (hn : IsPlainName hidden name) (content : Octets) :
    ((Record.replaceFile (folder.child name) content).exec m).1 =
        ((Record.replaceFile (folder.child name) content).exec n).1 ∧
      AlikeBut place hidden ((Record.replaceFile (folder.child name) content).exec m).2
        ((Record.replaceFile (folder.child name) content).exec n).2 := by
  have room := h.hasRoom hn
  have directory := h.isDirectory_iff hn.ne
  have fixed (machine : Machine) := SameCircumstances.of_exec
    (Record.replaceFile (folder.child name) content) machine
  have progress := Record.replaceFile_offline (folder.child name) content
  have alike (nodes) := h.after (fixed m) (fixed n)
    (by rw [progress, progress, h.progress]) nodes
  obtain ⟨outcome, m', hm, -, left_ends⟩ := Record.replaceFile_ends left hn.file.down content
  obtain ⟨outcome', n', hn', -, right_ends⟩ := Record.replaceFile_ends right hn.file.down content
  rw [hm, hn'] at alike ⊢
  rcases left_ends with ⟨rfl, hr, plain, j, nodes⟩ | ⟨rfl, hr, taken, nodes⟩ | ⟨rfl, hr, nodes⟩ <;>
    rcases right_ends with ⟨rfl, hr', plain', k, nodes'⟩ | ⟨rfl, hr', taken', nodes'⟩ |
      ⟨rfl, hr', nodes'⟩
  · exact ⟨rfl, alike (h.changed (by rfl) nodes nodes')⟩
  · obtain ⟨mode, there⟩ := directory.mp taken'
    exact absurd there (plain mode)
  · exact absurd (room.mpr hr) hr'
  · obtain ⟨mode, there⟩ := directory.mpr taken
    exact absurd there (plain' mode)
  · exact ⟨rfl, alike fun l hl => by rw [nodes, nodes']; exact h.nodes l hl⟩
  · exact absurd (room.mpr hr) hr'
  · exact absurd (room.mp hr') hr
  · exact absurd (room.mp hr') hr
  · exact ⟨rfl, alike fun l hl => by rw [nodes, nodes']; exact h.nodes l hl⟩

omit [Runtime] in
/-- Files with plain names look the same on machines that are alike. -/
theorem Likeness.spans_beside (veiled : IsVeiledFact place hidden extra) :
    (Likeness.beside folder place hidden extra).Spans folder (IsPlainName hidden)
      (Machine.Opened folder place hidden extra) where
  clock := .of_exec fun m n h => ⟨.ok h.alike.now.symm, h⟩
  emit output := .of_exec fun m n h => ⟨.ok rfl, by
    have passed (machine : Machine) : machine.Passed place hidden (machine.tell output) :=
      ⟨.of_tree rfl, rfl, ⟨rfl, rfl, rfl, rfl, rfl, rfl, rfl⟩, id⟩
    exact h.after veiled (passed m) (passed n)
      (h.alike.after (passed m).fixed (passed n).fixed h.alike.progress h.alike.nodes)⟩
  ensure := .of_exec fun m n h => by
    rw [h.left.ensure_exec, h.right.ensure_exec]
    exact ⟨.ok rfl, h⟩
  readFile {name} hn := .of_exec fun m n h => by
    rw [Action.exec_ask, Action.exec_ask, h.left.answer_readFile hn.file,
      h.right.answer_readFile hn.file]
    exact ⟨.ok (h.alike.contentOf_eq fun same => hn.veiled (.inl same)).symm, h⟩
  probe {name} hn := .of_exec fun m n h => by
    rw [Action.exec_ask, Action.exec_ask, h.left.answer_probe hn.file, h.right.answer_probe hn.file]
    exact ⟨.ok (h.alike.kindOf_eq fun same => hn.veiled (.inl same)).symm, h⟩
  unlink {name} hn := by
    have passed (machine : Machine) (g : Ground machine folder place) : machine.Passed place hidden
        ((Action.ask (.unlink (folder.child name))).exec machine).2 :=
      .of_exec g ((Ground.unlink_confined hn.file).mono fun _ same => same ▸ hn.veiled)
        (Record.unlink_keychain _ machine)
    refine agrees_beside veiled passed passed fun m n left right h => ?_
    obtain ⟨answered, alike⟩ := h.unlink left right hn
    exact ⟨.ok answered, alike⟩
  createFile hn mode := .ask fun m n h => ⟨h.createFile veiled hn mode, trivial⟩
  writeFile j k content := .ask fun m n h => ⟨h.writeFile veiled content, trivial⟩
  forget h := h.beside
  replaceFile {name} hn content := by
    have passed (machine : Machine) (g : Ground machine folder place) : machine.Passed place hidden
        ((Record.replaceFile (folder.child name) content).exec machine).2 := by
      obtain ⟨outcome, after, he, keychain, result⟩ :=
        Record.replaceFile_cases g hn.file.down content
      have only : ChangedOnly place (· = name) machine after := by
        rcases result with ⟨-, -, only, -⟩ | ⟨-, nodes⟩
        · exact only
        · exact ⟨fun l _ => nodes l, fun l hl => by rwa [Tree.isDirectory, nodes]⟩
      rw [he]
      exact ⟨only.mono fun _ same => same ▸ hn.veiled, keychain, .of_exec_eq he,
        fun numbered => numbered.of_exec_eq he⟩
    refine agrees_beside veiled passed passed fun m n left right h => ?_
    obtain ⟨answered, alike⟩ := h.replaceFile left right hn content
    exact ⟨.of_eq answered, alike⟩

end Beside

end SessionKeeper
