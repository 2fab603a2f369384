import SessionKeeper.Proofs.Disk.Descent
import SessionKeeper.Proofs.Record.Atomic

/-!
# Writing all or nothing

Writing a record file at a path that only leads down replaces it whole or leaves the tree as it was.
It is replaced together with the folders that were missing above it. The tree stays as it was where
the document cannot be printed, a file stands on the way, or the path leads to a directory. At every
moment in between the path shows what it showed before or all of the new file.

The guarantee ends where the name of the file is so long that its temporary file, whose name is
longer by fourteen octets, cannot be made. Then the folders above it are made all the same.
-/
namespace SessionKeeper.Record

variable {machine : Machine} {folder path : Path} {place : Location} {name : String}
  {document : Json} {octets : Octets}

theorem utf8ByteSize_ofDigits {cs : List Char} (digits : ∀ c ∈ cs, c.isDigit = true) :
    (String.ofList cs).utf8ByteSize = cs.length := by
  induction cs with
  | nil => rfl
  | cons c rest ih =>
    have split : String.ofList (c :: rest) = String.ofList [c] ++ String.ofList rest := by
      rw [← String.ofList_append]
      rfl
    have single : (String.ofList [c]).utf8ByteSize = c.utf8Size := by
      rw [← String.singleton_eq_ofList, String.utf8ByteSize_singleton]
    have ascii : c.utf8Size = 1 := by
      have digit := digits c List.mem_cons_self
      simp only [Char.isDigit, Bool.and_eq_true, decide_eq_true_eq] at digit
      exact Char.utf8Size_eq_one_iff.mpr (UInt32.le_trans digit.2 (by decide))
    rw [split, String.utf8ByteSize_append, single, ascii,
      ih fun d hd => digits d (List.mem_cons_of_mem _ hd), List.length_cons]
    omega

/-- The name of a temporary file is longer by fourteen octets than that of its file, as long as
eight digits are enough to number it. -/
theorem utf8ByteSize_temporaryName (stem : String) {number : Nat} (few : number < 10 ^ 8) :
    (Machine.temporaryName stem number).utf8ByteSize = stem.utf8ByteSize + 14 := by
  have digits : (String.ofList (paddedChars 8 number)).utf8ByteSize = 8 := by
    rw [utf8ByteSize_ofDigits (isDigit_paddedChars 8 number),
      length_paddedChars 8 number (by decide) few]
  have unfolded : Machine.temporaryName stem number =
      "." ++ stem ++ "." ++ String.ofList (paddedChars 8 number) ++ ".tmp" := rfl
  have dot : (".".utf8ByteSize) = 1 := by decide
  have ending : (".tmp".utf8ByteSize) = 4 := by decide
  rw [unfolded]
  simp only [String.utf8ByteSize_append, digits, dot, ending]
  omega

/-- There is room for a temporary file beside a file whose name is fourteen octets short of the
limit, unless there are too many files to number it with eight digits. -/
theorem hasRoom_of_short (short : name.utf8ByteSize ≤ 241)
    (few : machine.tree.nodes.length < 10 ^ 8) : HasRoom machine place name := by
  have some_free : ∃ k, machine.under place (Machine.temporaryName name k) = none := by
    by_contra none_free
    push Not at none_free
    have bound := le_length_nodes (k := machine.tree.nodes.length + 1) fun j _ => none_free j
    omega
  classical
  have taken (j : Nat) (hj : j < Nat.find some_free) :
      machine.under place (Machine.temporaryName name j) ≠ none := Nat.find_min some_free hj
  have bound : Nat.find some_free ≤ machine.tree.nodes.length := le_length_nodes taken
  have fits (j : Nat) (hj : j ≤ Nat.find some_free) :
      Tree.isTooLong (Machine.temporaryName name j) = false := by
    rw [Tree.isTooLong, utf8ByteSize_temporaryName name (by omega), Tree.nameLimit,
      decide_eq_false_iff_not]
    omega
  exact ⟨_, fun j hj => ⟨taken j hj, fits j hj.le⟩, Nat.find_spec some_free,
    temporaryName_ne_up name _, fits _ le_rfl⟩

/-- How writing a record file ends at a path that only leads down. It is crowded where the name of
the temporary file would be too long, or where so many files stand that the numbers of temporary
files grow longer. -/
inductive Writes [Runtime] (path : Path) (document : Json) (before : Machine) :
    Except Failure Unit → Machine → Prop where
  | replaced {octets : Octets} {number : Nat} {after : Machine}
    (printed : octetsOf document = .ok octets)
    (found : after.tree.find after.directory path =
      .ok (path.goal before.directory, .file number privateMode octets))
    (others : ∀ l, l ≠ path.goal before.directory → after.tree.node? l =
      before.tree.lay (path.parent.goal before.directory) Folder.privateMode l) :
    Writes path document before (.ok ()) after
  | unprintable {limit : Limit} (unprinted : octetsOf document = .error limit) :
    Writes path document before (.error (.beyond limit)) before
  | blocked {fault : FileFault}
    (blocked : before.tree.Blocked (path.parent.goal before.directory)) :
    Writes path document before (.error (.file fault)) before
  | folder {after : Machine} (taken : before.tree.isDirectory (path.goal before.directory) = true)
    (same : ∀ l, after.tree.node? l = before.tree.node? l) :
    Writes path document before (.error (.file .isDirectory)) after
  | crowded {after : Machine}
    (long : 241 < path.name.utf8ByteSize ∨ 10 ^ 8 ≤ before.tree.nodes.length)
    (folders : Tree.Laid before.tree after.tree (path.parent.goal before.directory)
      Folder.privateMode) :
    Writes path document before (.error (.file .nameTooLong)) after

/-- What a path shows while its file is written: what it did before, or all of the new file. -/
def Shows [Runtime] (path : Path) (document : Json) (before m : Machine) : Prop :=
  m.tree.find m.directory path = before.tree.find before.directory path ∨
    ∃ octets, octetsOf document = .ok octets ∧ m.tree.read m.directory path = .ok octets

theorem long_of_not_hasRoom (full : ¬ HasRoom machine place name) :
    241 < name.utf8ByteSize ∨ 10 ^ 8 ≤ machine.tree.nodes.length := by
  by_contra small
  push Not at small
  exact full (hasRoom_of_short small.1 small.2)

/-- Making the folder above lays the way to it, or a file stands on that way. -/
theorem ensure_settles (names : folder.Descends) (numbered : machine.tree.Numbered)
    (rooted : machine.tree.IsRooted)
    (start : machine.tree.isDirectory (folder.start machine.directory) = true) :
    (∃ fault, (Folder.ensure folder).exec machine = (.error (.file fault), machine) ∧
      machine.tree.Blocked (folder.goal machine.directory)) ∨
    ∃ between, (Folder.ensure folder).exec machine = (.ok (), between) ∧
      Tree.Laid machine.tree between.tree (folder.goal machine.directory) Folder.privateMode ∧
      Folder.Paves folder machine between ∧ Ground between folder (folder.goal machine.directory) := by
  obtain ⟨outcome, between, he, lays⟩ := Folder.ensure_lays names rooted start
  cases lays with
  | @blocked fault blocked => exact .inl ⟨fault, he, blocked⟩
  | laid laid =>
    obtain ⟨_, _, same, made⟩ := Folder.ensure_made folder machine
    rw [he] at same
    obtain ⟨rfl, rfl⟩ := Prod.mk.inj same
    have fixed := Machine.SameCircumstances.of_exec_eq he
    obtain ⟨place, leads, stands⟩ := made.stands.mp rfl
    have descent := between.tree.locate_descent machine.directory names
    rw [leads] at descent
    cases descent with
    | arrives =>
      rw [← fixed.directory] at leads
      refine .inr ⟨between, he, laid, ⟨made.paved, fixed⟩, ?_, stands, numbered.of_exec_eq he⟩
      rw [leads, fixed.directory]
      rfl

/-- What is laid on the way to a folder is not in it. -/
theorem under_of_laid {between : Machine} {mode : Nat}
    (laid : Tree.Laid machine.tree between.tree place mode) (name : String) :
    between.under place name = machine.under place name := by
  rw [Machine.under, laid, Tree.lay, if_neg (by simp), if_neg fun above => ?_, Option.or_none]
  · rfl
  · have longer := above.length_le
    simp at longer

/-- The way to a folder that stands is laid already. -/
theorem node?_of_laid {tree : Tree} {mode : Nat} (rooted : machine.tree.IsRooted)
    (laid : Tree.Laid machine.tree tree place mode)
    (stands : machine.tree.isDirectory place = true) (l : Location) :
    tree.node? l = machine.tree.node? l := by
  rw [laid]
  exact (Tree.Laid.of_stands rooted stands l).symm

theorem replaceFile_writes [Runtime] {between : Machine} (printed : octetsOf document = .ok octets)
    (rooted : machine.tree.IsRooted) (hn : Tree.IsFileName name)
    (laid : Tree.Laid machine.tree between.tree (folder.goal machine.directory) Folder.privateMode)
    (g : Ground between folder (folder.goal machine.directory)) :
    ∃ outcome after, (replaceFile (folder.child name) octets).exec between = (outcome, after) ∧
      Writes (folder.child name) document machine outcome after := by
  obtain ⟨outcome, after, he, -, ⟨rfl, -, plain, number, nodes⟩ | ⟨rfl, -, ⟨mode, taken⟩, nodes⟩ |
    ⟨rfl, full, nodes⟩⟩ := replaceFile_ends g hn.down octets
  · have found : after.tree.find after.directory (folder.child name) =
        .ok ((folder.child name).goal machine.directory, .file number privateMode octets) := by
      have standing := g.exec he (Ground.changedOnly_of_node plain nodes)
      rw [standing.find hn, Machine.under, nodes, if_pos rfl, Path.goal_child]
    refine ⟨_, after, he, .replaced printed found fun l apart => ?_⟩
    rw [Path.goal_child] at apart
    rw [nodes, if_neg (Ne.symm apart), laid, Path.parent_child]
  · have there : machine.tree.isDirectory ((folder.child name).goal machine.directory) = true := by
      rw [Path.goal_child, Tree.isDirectory_iff]
      exact ⟨mode, (under_of_laid laid name).symm.trans taken⟩
    have above := rooted.isDirectory_prefix there
      ((Path.goal_child folder name machine.directory).symm ▸ List.prefix_append _ _)
    exact ⟨_, after, he, .folder there fun l =>
      (nodes l).trans (node?_of_laid rooted laid above l)⟩
  · refine ⟨_, after, he, .crowded ?_ ?_⟩
    · rw [Path.name_child]
      refine long_of_not_hasRoom fun room => full (room.of_under fun k => ?_)
      exact under_of_laid laid _
    · intro l
      rw [nodes, laid, Path.parent_child]

/-- While a file is replaced its path shows the old one until it shows the new one. -/
theorem replaceFile_shows [Runtime] {between : Machine} (printed : octetsOf document = .ok octets)
    (hn : Tree.IsFileName name) (g : Ground between folder place)
    (shown : between.tree.find between.directory (folder.child name) =
      machine.tree.find machine.directory (folder.child name)) :
    (replaceFile (folder.child name) octets).Passes between
      (Shows (folder.child name) document machine) := by
  have apart : ¬ IsTemporaryOf name name := fun ⟨k, hk⟩ => temporaryName_ne name k hk.symm
  obtain ⟨outcome, after, he, -, ends⟩ := replaceFile_ends g hn.down octets
  have passes := replaceFile_passes g hn octets
  rw [he] at passes
  refine passes.mono fun m ⟨gm, differs⟩ => ?_
  have as (under : m.under place name = between.under place name) :
      Shows (folder.child name) document machine m := by
    left
    rw [← shown, gm.find hn, g.find hn, under]
  rcases differs with differs | differs
  · exact as (differs.under apart)
  · rcases ends with ⟨-, -, -, number, nodes⟩ | ⟨-, -, -, nodes⟩ | ⟨-, -, nodes⟩
    · right
      have under : m.under place name = some (.file number privateMode octets) := by
        rw [differs.under apart, Machine.under, nodes, if_pos rfl]
      refine ⟨octets, printed, ?_⟩
      rw [Tree.read, gm.find hn, under]
      rfl
    · exact as ((differs.under apart).trans (nodes _))
    · exact as ((differs.under apart).trans (nodes _))

theorem locate_nameless (nameless : path.parts = []) (tree : Tree) (directory : Location) :
    tree.locate directory path = .ok (path.start directory) := by
  rw [Tree.locate, nameless]
  rfl

theorem parent_nameless (nameless : path.parts = []) : path.parent = path := by
  obtain ⟨anchor, parts⟩ := path
  obtain rfl : parts = [] := nameless
  rfl

/-- A path without names leads to the folder where it starts, and no file is moved over that. -/
theorem replaceFile_nameless {between : Machine} (g : Ground between path place)
    (nameless : path.parts = []) (octets : Octets) :
    (∃ fault after, (replaceFile path octets).exec between = (.error (.file fault), after) ∧
      (∀ l, after.tree.node? l = between.tree.node? l) ∧
      (fault = .isDirectory ∨ fault = .nameTooLong ∧ ¬ HasRoom between place path.name)) ∧
    (replaceFile path octets).Passes between fun m => Ground m path place ∧
      m.tree.node? place = between.tree.node? place := by
  have parent := parent_nameless nameless
  have prepared := replaceFile_prepared path (by rwa [parent]) octets
  rw [parent] at prepared
  have apart (temporary : String) : place ≠ place ++ [temporary] := by simp
  obtain ⟨full, ended, passes⟩ | ⟨k, number, allowed, ht, gallowed, found, -, nodes, free, ended,
    passes⟩ := prepared
  · exact ⟨⟨_, between, ended, fun _ => rfl, .inr ⟨rfl, full⟩⟩, passes _ ⟨g, rfl⟩⟩
  · have stuck : allowed.answer (.rename (path.child (Machine.temporaryName path.name k)) path) =
        (.error .isDirectory, allowed) := by
      show allowed.edit (allowed.tree.rename allowed.directory _ _) = _
      rw [Tree.rename, gallowed.find ht, found]
      simp only [bind, Except.bind, gallowed.leads, gallowed.stands]
      rfl
    have away := gallowed.answer_unlink ht
    rw [found] at away
    have gone := gallowed.answer away (Ground.changedOnly_without _ (by simp [found]))
    refine ⟨⟨.isDirectory, Ground.without allowed place (Machine.temporaryName path.name k),
      ended.trans ?_, fun l => ?_, .inl rfl⟩, passes _ ?_ ?_⟩
    · exact (Action.exec_ask_bind stuck).trans ((Action.exec_ask_bind away).trans rfl)
    · rw [Ground.node?_without]
      split_ifs with here
      · rw [← here]
        exact free.symm
      · exact nodes l (Ne.symm here)
    · intro m gm differs
      refine ⟨gm, differs.elsewhere _ ?_⟩
      rintro _ ⟨j, rfl⟩
      exact apart _
    · refine .ask_bind stuck ⟨gallowed, nodes _ (apart _)⟩ (.ask_bind away ⟨gone, ?_⟩ (.throw _))
      rw [Ground.node?_without, if_neg (Ne.symm (apart _))]
      exact nodes _ (apart _)

theorem nameless_writes [Runtime] {between : Machine} (document : Json) (octets : Octets)
    (nameless : path.parts = []) (rooted : machine.tree.IsRooted)
    (start : machine.tree.isDirectory (path.start machine.directory) = true)
    (laid : Tree.Laid machine.tree between.tree (path.goal machine.directory) Folder.privateMode)
    (g : Ground between path (path.goal machine.directory))
    (shown : between.tree.find between.directory path = machine.tree.find machine.directory path) :
    (∃ outcome after, (replaceFile path octets).exec between = (outcome, after) ∧
      Writes path document machine outcome after) ∧
    (replaceFile path octets).Passes between (Shows path document machine) := by
  obtain ⟨⟨fault, after, ended, same, reason⟩, passes⟩ := replaceFile_nameless g nameless octets
  have taken : machine.tree.isDirectory (path.goal machine.directory) = true := by
    rwa [Path.goal, nameless, List.append_nil]
  refine ⟨⟨_, after, ended, ?_⟩, passes.mono ?_⟩
  · rcases reason with rfl | ⟨rfl, full⟩
    · exact .folder taken fun l => (same l).trans (node?_of_laid rooted laid taken l)
    · refine .crowded (long_of_not_hasRoom fun room => full (room.of_under fun k => ?_)) fun l => ?_
      · exact under_of_laid laid _
      · rw [parent_nameless nameless, same, laid]
  · rintro m ⟨gm, there⟩
    left
    rw [← shown, Tree.find, Tree.find, gm.leads, g.leads]
    simp only [bind, Except.bind, there]

/-- While folders appear above a file its path shows what it did. -/
theorem find_of_paves {m : Machine} (paves : Folder.Paves path.parent machine m)
    (names : path.Descends) (rooted : machine.tree.IsRooted)
    (start : machine.tree.isDirectory (path.start machine.directory) = true) :
    m.tree.find m.directory path = machine.tree.find machine.directory path := by
  rw [paves.circumstances.directory]
  by_cases nameless : path.parts = []
  · obtain ⟨mode, hm⟩ := (Tree.isDirectory_iff _).mp start
    rw [Tree.find, Tree.find, locate_nameless nameless, locate_nameless nameless]
    simp only [bind, Except.bind, hm, paves.paved.grown.of_some hm]
  · have split := Path.eq_child_of_ne_nil nameless
    rw [split] at names ⊢
    exact paves.paved.find_child rooted names

/-- Writing a record file at a path that only leads down replaces it whole, together with the folders
that were missing above it, or changes nothing, unless its name leaves no room for that of its
temporary file. Whatever is passed on the way shows the old file or the new one. -/
theorem write_replaces_whole [Runtime] (document : Json) (names : path.Descends)
    (numbered : machine.tree.Numbered) (rooted : machine.tree.IsRooted)
    (home : machine.tree.isDirectory machine.directory = true) :
    (∃ outcome after, (write path document).exec machine = (outcome, after) ∧
      Writes path document machine outcome after) ∧
    (write path document).Passes machine (Shows path document machine) := by
  have start : machine.tree.isDirectory (path.start machine.directory) = true := by
    rw [Path.start]
    split
    · rfl
    · exact home
  have early (m : Machine) (paves : Folder.Paves path.parent machine m) :
      Shows path document machine m := .inl (find_of_paves paves names rooted start)
  have above := (Folder.ensure_passes path.parent machine).mono early
  rw [write]
  cases printed : octetsOf document with
  | error limit => exact ⟨⟨_, machine, rfl, .unprintable printed⟩, .throw _⟩
  | ok octets =>
    dsimp only
    obtain ⟨fault, refused, blocked⟩ | ⟨between, ensured, laid, paves, g⟩ :=
      ensure_settles names.parent numbered rooted start
    · refine ⟨⟨_, machine, Action.exec_bind_error refused, .blocked blocked⟩, .bind above ?_⟩
      intro _ _ ended
      rw [refused] at ended
      cases ended
    · have shown := find_of_paves paves names rooted start
      rw [Action.exec_bind_ok ensured]
      by_cases nameless : path.parts = []
      · rw [parent_nameless nameless] at g laid
        obtain ⟨ends, passes⟩ := nameless_writes document octets nameless
          rooted start laid g shown
        exact ⟨ends, .bind_step above ensured passes⟩
      · have split := Path.eq_child_of_ne_nil nameless
        generalize path.parent = folder, path.name = name at split
        subst split
        rw [Path.parent_child] at g laid above ensured
        have hn : Tree.IsFileName name := names name (List.mem_append_right _ List.mem_cons_self)
        exact ⟨replaceFile_writes printed rooted hn laid g,
          .bind_step above ensured (replaceFile_shows printed hn g shown)⟩

theorem node?_bare (l : Location) : Machine.bare.tree.node? l =
    if l = [] then some (.directory 0o755) else
      if l = ["home"] then some (.directory 0o700) else none := by
  rw [Tree.node?]
  split_ifs with root home
  · rfl
  · rw [home]
    rfl
  · rw [Machine.bare, Assoc.value?_cons, if_neg (Ne.symm home)]
    rfl

theorem isRooted_bare : Machine.bare.tree.IsRooted := by
  intro l there
  rw [node?_bare] at there
  split_ifs at there with root home
  · rw [root]
    rfl
  · rw [home]
    rfl
  · exact absurd rfl there

theorem not_blocked_bare (goal : Location) : ¬ Machine.bare.tree.Blocked goal := by
  rintro ⟨l, number, mode, content, -, file⟩
  rw [node?_bare] at file
  split_ifs at file <;> cases file

open scoped SessionKeeper.Runtime in
/-- A file is written into a folder that is not there yet. -/
theorem bare_write_makes_folder : ∃ after,
    (write ⟨"/", ["home", "new", "a.json"]⟩ (.obj [])).exec .bare = (.ok (), after) ∧
      after.tree.node? ["home", "new"] = some (.directory 0o700) ∧
      ∃ octets, octetsOf (.obj []) = .ok octets ∧
        after.tree.read after.directory ⟨"/", ["home", "new", "a.json"]⟩ = .ok octets := by
  have names : Path.Descends ⟨"/", ["home", "new", "a.json"]⟩ := by
    intro part hp
    simp only [List.mem_cons, List.not_mem_nil, or_false] at hp
    rcases hp with rfl | rfl | rfl <;> exact ⟨by decide, by decide⟩
  obtain ⟨⟨outcome, after, ended, writes⟩, -⟩ := write_replaces_whole (.obj []) names
    Machine.ground_bare.numbered isRooted_bare rfl
  cases writes with
  | @replaced octets number after printed found others =>
    refine ⟨after, ended, ?_, octets, printed, ?_⟩
    · rw [others _ (by decide)]
      rfl
    · rw [Tree.read, found]
      rfl
  | unprintable unprinted => cases unprinted
  | blocked blocked => exact absurd blocked (not_blocked_bare _)
  | folder taken =>
    rw [Tree.isDirectory_iff, node?_bare] at taken
    obtain ⟨mode, hm⟩ := taken
    cases hm
  | crowded long => exact absurd long (by decide)

/-- A name of 250 octets, which a file can have but its temporary file cannot. -/
def longName : String := String.ofList (List.replicate 250 'a')

open scoped SessionKeeper.Runtime in
/-- A failing call does not leave every tree as it was: where the name of the file is that long, the
folder above it is made. -/
theorem long_name_leaves_folder : ¬ ∀ (machine : Machine) (path : Path) (document : Json),
    path.Descends → machine.tree.Numbered → machine.tree.IsRooted →
      machine.tree.isDirectory machine.directory = true → ∀ failure after,
        (write path document).exec machine = (.error failure, after) →
          ∀ l, after.tree.node? l = machine.tree.node? l := by
  intro claim
  have names : (Path.child ⟨"/", ["home", "new"]⟩ longName).Descends := by
    intro part hp
    simp only [Path.child, List.cons_append, List.nil_append, List.mem_cons, List.not_mem_nil,
      or_false] at hp
    rcases hp with rfl | rfl | rfl
    · exact ⟨by decide, by decide⟩
    · exact ⟨by decide, by decide⟩
    · exact ⟨by decide +kernel, by decide +kernel⟩
  have folder : Path.Descends ⟨"/", ["home", "new"]⟩ := names.parent
  obtain ⟨fault, -, blocked⟩ | ⟨between, ensured, laid, -, g⟩ :=
    ensure_settles folder Machine.ground_bare.numbered isRooted_bare rfl
  · exact not_blocked_bare _ blocked
  obtain ⟨octets, printed⟩ : ∃ octets, octetsOf (.obj []) = .ok octets := ⟨_, rfl⟩
  have full : ¬ HasRoom between (Path.goal ⟨"/", ["home", "new"]⟩ Machine.bare.directory) longName := by
    rintro ⟨k, -, -, -, short⟩
    have size : longName.utf8ByteSize = 250 := by decide +kernel
    have ends : ".".utf8ByteSize = 1 ∧ ".tmp".utf8ByteSize = 4 := by decide
    rw [Tree.isTooLong, decide_eq_false_iff_not, Tree.nameLimit] at short
    simp only [Machine.temporaryName, String.utf8ByteSize_append, size, ends.1, ends.2] at short
    omega
  have down : longName ≠ ".." := by decide +kernel
  obtain ⟨outcome, after, he, -, ⟨-, room, -⟩ | ⟨-, room, -⟩ | ⟨rfl, -, nodes⟩⟩ :=
    replaceFile_ends g down octets
  · exact full room
  · exact full room
  · have ended : (write (Path.child ⟨"/", ["home", "new"]⟩ longName) (.obj [])).exec .bare =
        (.error (.file .nameTooLong), after) := by
      rw [write, printed, Path.parent_child]
      exact (Action.exec_bind_ok ensured).trans he
    have same := claim .bare _ _ names Machine.ground_bare.numbered isRooted_bare rfl _ after ended
      ["home", "new"]
    rw [nodes, laid] at same
    cases same

end SessionKeeper.Record
