import SessionKeeper.Proofs.Json.Limits
import SessionKeeper.Proofs.Record.Room

/-!
# A store and its path

A store is given by a path, and its folder may still have to be made. `InOrder` says that
the file at the path is the written form of some entries, and that there is none without
entries. Whoever has the room for them can read them again, which is not everyone who could be
asked to. Replacing the entries keeps this: it succeeds, or the entries cannot be printed,
or a file operation fails. The last can only happen to a store that has never been
written, where the folder cannot be made or takes no file of that name. Nothing but the file
and the folders on the way to it is touched.
-/
namespace SessionKeeper.Record

variable {machine before between after : Machine} {folder : Path} {place : Location}
  {name : String} {entries : Assoc Text Json}

/-- That the path leads to no file, whatever folders on the way to it are still made. -/
def Vacant (machine : Machine) (folder : Path) (name : String) : Prop :=
  ∀ tree, Tree.Paved machine.directory folder machine.tree tree →
    ∀ l number mode content,
      tree.find machine.directory (folder.child name) ≠ .ok (l, .file number mode content)

/-- That the folder stands or can be made, and that a record file can then be written in it:
there is room for a temporary file, and no directory has the name of the file. -/
structure Roomy (machine : Machine) (folder : Path) (name : String) : Prop where
  stands : machine.tree.CanStand machine.directory folder
  room : ∀ after place, after.directory = machine.directory →
    Tree.Paved machine.directory folder machine.tree after.tree →
      after.tree.locate after.directory folder = .ok place →
        HasRoom after place name ∧ ∀ mode, after.under place name ≠ some (.directory mode)

/-- That the file at a path is the printed form of these entries and only its owner may use
it, or that there are no entries and no file. -/
def Stored (machine : Machine) (folder : Path) (name : String) (entries : Assoc Text Json) : Prop :=
  if entries.isEmpty then Vacant machine folder name
  else ∃ l number, machine.tree.find machine.directory (folder.child name) =
    .ok (l, .file number privateMode (octetsIn (.obj entries)))

/-- That nothing was changed but the file at a path and, where nothing stood, folders on the
way to it. -/
structure Spared (folder : Path) (name : String) (before after : Machine) : Prop where
  directory : after.directory = before.directory
  keychain : after.keychain = before.keychain
  directories : ∀ l, before.tree.isDirectory l = true → after.tree.isDirectory l = true
  elsewhere : ∀ l, after.tree.locate after.directory (folder.child name) ≠ .ok l →
    after.tree.node? l = before.tree.node? l ∨
      (before.tree.node? l = none ∧ (∃ mode, after.tree.node? l = some (.directory mode)) ∧
        after.tree.OnTheWay after.directory folder l)

/-- A store whose file is in order. Somebody had the room to print what it holds. -/
structure InOrder (machine : Machine) (folder : Path) (name : String)
    (entries : Assoc Text Json) : Prop where
  numbered : machine.tree.Numbered
  stored : Stored machine folder name entries
  roomy : entries ≠ [] → Roomy machine folder name
  plain : (Json.obj entries).isPlain = true
  printed : ∃ room, (Json.obj entries).fits room = true

/-- A path that leads to something leads to it through its folder. -/
theorem exists_ground (numbered : machine.tree.Numbered) (down : name ≠ "..") {l : Location}
    {node : Node}
    (hf : machine.tree.find machine.directory (folder.child name) = .ok (l, node)) :
    ∃ place, Ground machine folder place ∧ Tree.IsFileName name ∧
      machine.under place name = some node := by
  have hn := Tree.node?_of_find hf
  have hl := Tree.locate_of_find hf
  have hp : (folder.child name).parts = folder.parts ++ [name] := rfl
  rw [Tree.locate, hp, Tree.walk_append] at hl
  obtain ⟨place, leads, last⟩ := exists_of_bind_ok hl
  have stands := Tree.isDirectory_of_walk last
  obtain ⟨mode, hm⟩ := (Tree.isDirectory_iff place).mp stands
  rw [Tree.walk, hm] at last
  simp only [if_neg down] at last
  split_ifs at last with long
  rw [← Except.ok.inj last] at hn
  exact ⟨place, ⟨leads, stands, numbered⟩, ⟨down, by simpa using long⟩, hn⟩

theorem Vacant.of_nodes (h : Vacant before folder name)
    (directory : after.directory = before.directory)
    (nodes : ∀ l, after.tree.node? l = before.tree.node? l) : Vacant after folder name := by
  intro tree paved
  rw [directory] at paved ⊢
  refine h tree ⟨fun l => ?_, fun l hn hs => paved.way l ((nodes l).trans hn) hs⟩
  rw [← nodes]
  exact paved.grown l

/-- Making folders on the way does not bring a file to light. -/
theorem Vacant.paved (h : Vacant before folder name)
    (directory : after.directory = before.directory)
    (paved : Tree.Paved before.directory folder before.tree after.tree) :
    Vacant after folder name := by
  intro tree more
  rw [directory] at more ⊢
  exact h tree (paved.trans more)

theorem Vacant.of_ground (g : Ground machine folder place) (hn : Tree.IsFileName name)
    (free : machine.under place name = none) : Vacant machine folder name := by
  intro tree paved l number mode content hf
  have hl := paved.node?_of_stands g.standing
  have stands := paved.grown.isDirectory g.stands
  have found := Tree.find_child (paved.grown.walk_ok g.leads) stands hn
  have hu : tree.node? (place ++ [name]) = none := (hl _).trans free
  rw [hu] at found
  rw [found] at hf
  nomatch hf

theorem Vacant.under (h : Vacant machine folder name) (g : Ground machine folder place)
    (hn : Tree.IsFileName name) {number mode : Nat} {content : Octets} :
    machine.under place name ≠ some (.file number mode content) := by
  intro hu
  refine h machine.tree (.refl _ _ _) (place ++ [name]) number mode content ?_
  rw [g.find hn, hu]

/-- Where the folder stands, only what stands in it matters to whether the file can be written. -/
theorem Roomy.of_ground (g : Ground machine folder place) (room : HasRoom machine place name)
    (plain : ∀ mode, machine.under place name ≠ some (.directory mode)) :
    Roomy machine folder name where
  stands := ⟨machine.tree, .refl _, g.standing⟩
  room after place' directory paved leads := by
    have nodes := paved.node?_of_stands g.standing
    rw [directory] at leads
    obtain rfl : place' = place := Tree.walk_unique leads g.leads
    have under (other : String) : after.under place' other = machine.under place' other := nodes _
    refine ⟨room.of_under fun k => under _, fun mode => ?_⟩
    rw [under]
    exact plain mode

theorem Roomy.hasRoom (h : Roomy machine folder name) (g : Ground machine folder place) :
    HasRoom machine place name ∧ ∀ mode, machine.under place name ≠ some (.directory mode) :=
  h.room machine place rfl (.refl _ _ _) g.leads

theorem Roomy.of_tree (h : Roomy before folder name) (directory : after.directory = before.directory)
    (tree : after.tree = before.tree) : Roomy after folder name where
  stands := by
    rw [tree, directory]
    exact h.stands
  room last place hd paved leads := by
    rw [tree, directory] at paved
    exact h.room last place (hd.trans directory) paved leads

namespace Spared

theorem of_tree (directory : after.directory = before.directory)
    (keychain : after.keychain = before.keychain) (tree : after.tree = before.tree) :
    Spared folder name before after :=
  ⟨directory, keychain, fun l hl => by rw [tree]; exact hl, fun l _ => Or.inl (by rw [tree])⟩

theorem refl (machine : Machine) : Spared folder name machine machine := of_tree rfl rfl rfl

theorem trans (h : Spared folder name before between) (k : Spared folder name between after) :
    Spared folder name before after where
  directory := k.directory.trans h.directory
  keychain := k.keychain.trans h.keychain
  directories l hl := k.directories l (h.directories l hl)
  elsewhere l hl := by
    have early : between.tree.locate between.directory (folder.child name) ≠ .ok l := by
      intro hb
      refine hl ?_
      rw [k.directory]
      exact Tree.walk_of_directories k.directories _ _ _ hb
    rcases h.elsewhere l early with hs | ⟨hnone, ⟨mode, hd⟩, count, way⟩
    · rw [← hs]
      exact k.elsewhere l hl
    · right
      obtain ⟨mode', hd'⟩ :=
        (Tree.isDirectory_iff l).mp (k.directories l ((Tree.isDirectory_iff l).mpr ⟨mode, hd⟩))
      refine ⟨hnone, ⟨mode', hd'⟩, count, ?_⟩
      rw [k.directory]
      exact Tree.walk_of_directories k.directories _ _ _ way

theorem of_nodes (directory : after.directory = before.directory)
    (keychain : after.keychain = before.keychain)
    (nodes : ∀ l, after.tree.node? l = before.tree.node? l) : Spared folder name before after where
  directory := directory
  keychain := keychain
  directories l hl := by
    rw [Tree.isDirectory_iff] at hl ⊢
    rw [nodes]
    exact hl
  elsewhere l _ := Or.inl (nodes l)

theorem of_paved (directory : after.directory = before.directory)
    (keychain : after.keychain = before.keychain)
    (paved : Tree.Paved before.directory folder before.tree after.tree) :
    Spared folder name before after where
  directory := directory
  keychain := keychain
  directories l hl := paved.grown.isDirectory hl
  elsewhere l _ := by
    rcases paved.grown l with hs | ⟨hnone, mode, hd⟩
    · exact Or.inl hs
    · refine Or.inr ⟨hnone, ⟨mode, hd⟩, ?_⟩
      rw [directory]
      exact paved.way l hnone (by rw [hd]; simp)

theorem of_changedOnly (g : Ground before folder place) (hn : Tree.IsFileName name)
    (directory : after.directory = before.directory) (keychain : after.keychain = before.keychain)
    (only : ChangedOnly place (· = name) before after) : Spared folder name before after where
  directory := directory
  keychain := keychain
  directories := only.directories
  elsewhere l hl := by
    refine Or.inl (only.elsewhere l fun other ho heq => hl ?_)
    subst ho
    rw [heq, directory]
    exact Tree.walk_of_directories only.directories _ _ _ (g.locate hn)

end Spared

namespace InOrder

/-- Either there are no entries and no file, or the folder stands and the file has been
written. -/
theorem cases (h : InOrder machine folder name entries) (down : name ≠ "..") :
    (entries = [] ∧ Vacant machine folder name) ∨
      (entries ≠ [] ∧ ∃ place, Ground machine folder place ∧ Tree.IsFileName name ∧
        Written machine place name entries) := by
  have stored := h.stored
  rw [Stored] at stored
  split_ifs at stored with he
  · exact Or.inl ⟨List.isEmpty_iff.mp he, stored⟩
  · obtain ⟨l, number, hf⟩ := stored
    obtain ⟨place, g, hn, hu⟩ := exists_ground h.numbered down hf
    refine Or.inr ⟨by simpa using he, place, g, hn, ?_⟩
    rw [Written, if_neg he]
    exact ⟨number, hu⟩

theorem of_tree (h : InOrder before folder name entries)
    (directory : after.directory = before.directory) (tree : after.tree = before.tree) :
    InOrder after folder name entries where
  numbered := by
    rw [tree]
    exact h.numbered
  stored := by
    have stored := h.stored
    unfold Stored at stored ⊢
    split_ifs at stored ⊢
    · exact stored.of_nodes directory fun l => by rw [tree]
    · rw [directory, tree]
      exact stored
  roomy hne := (h.roomy hne).of_tree directory tree
  plain := h.plain
  printed := h.printed

/-- A store that has never been written, or not since its last entry was taken out. -/
theorem of_vacant (numbered : machine.tree.Numbered) (vacant : Vacant machine folder name) :
    InOrder machine folder name [] :=
  ⟨numbered, vacant, fun h => absurd rfl h, rfl, 1, rfl⟩

theorem of_written (g : Ground machine folder place) (hn : Tree.IsFileName name)
    (room : HasRoom machine place name) (plain : (Json.obj entries).isPlain = true)
    (printed : ∃ room, (Json.obj entries).fits room = true) (hne : entries ≠ [])
    (written : Written machine place name entries) : InOrder machine folder name entries := by
  have he : ¬ entries.isEmpty = true := by simpa using hne
  rw [Written, if_neg he] at written
  obtain ⟨number, hu⟩ := written
  refine ⟨g.numbered, ?_, fun _ => .of_ground g room (by simp [hu]), plain, printed⟩
  rw [Stored, if_neg he]
  refine ⟨place ++ [name], number, ?_⟩
  rw [g.find hn, hu]

variable [Runtime]

/-- The entries of a store in order are what reading its file gives where there is room. -/
theorem entries_exec (h : InOrder machine folder name entries) (down : name ≠ "..")
    (fits : (Json.obj entries).fits (Runtime.reads + 1) = true) :
    ∃ after, (Store.entries ⟨folder.child name⟩).exec machine = (.ok entries, after) ∧
      after.belongings = machine.belongings := by
  rcases h.cases down with ⟨rfl, vacant⟩ | ⟨-, place, g, hn, written⟩
  · have ha : machine.answer (.readFile (folder.child name)) =
        (machine.tree.read machine.directory (folder.child name), machine) := rfl
    have none_found : ∀ content,
        machine.tree.read machine.directory (folder.child name) ≠ .ok content := by
      intro content hr
      obtain ⟨⟨l, node⟩, hf, hc⟩ := exists_of_bind_ok hr
      cases node with
      | directory mode => nomatch hc
      | file number mode old => exact vacant _ (.refl _ _ _) l number mode old hf
    obtain ⟨status, after, hr, hb⟩ : ∃ status after,
        (read (folder.child name)).exec machine = (.ok ⟨status, []⟩, after) ∧
          after.belongings = machine.belongings := by
      rw [read, Action.exec_ask_bind ha]
      cases hr : machine.tree.read machine.directory (folder.child name) with
      | ok content => exact absurd hr (none_found content)
      | error fault => cases fault <;> exact ⟨_, _, rfl, rfl⟩
    exact ⟨after, (Action.exec_bind_ok hr).trans rfl, hb⟩
  · have plain := h.plain
    rw [Json.isPlain, Bool.and_eq_true] at plain
    have holds := written.holds plain.2 fits
    rw [Json.ofPairs_rereadMembers plain.1] at holds
    exact ⟨machine, Store.entries_exec g hn holds, rfl⟩

theorem entries_stopped (h : InOrder machine folder name entries) (down : name ≠ "..")
    (deep : (Json.obj entries).fits (Runtime.reads + 1) = false) :
    ∃ nesting, (Store.entries ⟨folder.child name⟩).exec machine =
      (.error (.beyond (.levels nesting)), machine) := by
  rcases h.cases down with ⟨rfl, -⟩ | ⟨hne, place, g, hn, written⟩
  · nomatch deep
  · rw [Written, if_neg (by simpa using hne)] at written
    obtain ⟨number, hu⟩ := written
    obtain ⟨wide, fits⟩ := h.printed
    obtain ⟨nesting, refused⟩ := entriesOf_octetsIn_of_not_fits h.plain fits deep
    have ha := g.answer_readFile hn
    rw [hu] at ha
    refine ⟨nesting, ?_⟩
    rw [Store.entries, Store.load, Record.read, bind_assoc, Action.exec_ask_bind ha]
    simp only [Ground.contentOf, refused]
    rfl

end InOrder

/-- Where a record file can be written and there is none, nothing is found. -/
theorem Roomy.find_absent (h : Roomy machine folder name) (numbered : machine.tree.Numbered)
    (vacant : Vacant machine folder name) (down : name ≠ "..") :
    machine.tree.find machine.directory (folder.child name) = .error .absent := by
  obtain ⟨after, place, -, fixed, -, paved, g⟩ := Folder.ensure_ground h.stands numbered
  obtain ⟨room, plain⟩ := h.room after place fixed.directory paved g.leads
  have hn := room.isFileName down
  refine paved.grown.find_absent ?_
  have vacant' := vacant.paved fixed.directory paved
  rw [← fixed.directory, g.find hn]
  rcases hu : after.under place name with _ | ⟨number, mode, content⟩ | mode
  · rfl
  · exact absurd hu (vacant'.under g hn)
  · exact absurd hu (plain mode)

variable [Runtime]

/-- The outcome of an operation on a store that changes its file: only what may be touched was,
and the file is in order again with the new entries, or with the old ones and a reason. -/
structure Changed (folder : Path) (name : String) (old new : Assoc Text Json) (before : Machine)
    (outcome : Except Failure Unit) (after : Machine) : Prop where
  spared : Spared folder name before after
  roomy : Roomy before folder name → Roomy after folder name
  result : (outcome = .ok () ∧ (Json.obj new).fits (Runtime.prints + 1) = true ∧
      InOrder after folder name new) ∨
    (∃ limit, outcome = .error (.beyond limit) ∧
      (Json.obj new).limit? (Runtime.prints + 1) = some limit ∧ InOrder after folder name old) ∨
    ((∃ fault, outcome = .error (.file fault)) ∧ (Json.obj new).fits (Runtime.prints + 1) = true ∧
      old = [] ∧ ¬ Roomy before folder name ∧ InOrder after folder name old)

theorem Changed.order_of_ok {old new : Assoc Text Json} {before after : Machine}
    (h : Changed folder name old new before (.ok ()) after) : InOrder after folder name new := by
  rcases h.result with ⟨-, -, order⟩ | ⟨limit, failed, -⟩ | ⟨⟨fault, failed⟩, -⟩
  · exact order
  · nomatch failed
  · nomatch failed

omit [Runtime] in
/-- What stops a write would stop it in a store that has been written before, so the store that
it stops has no entries and no file. -/
theorem InOrder.vacant_of_not_roomy (h : InOrder machine folder name entries) (down : name ≠ "..")
    (stopped : ¬ Roomy machine folder name) : entries = [] ∧ Vacant machine folder name := by
  have fresh : entries = [] := by
    by_contra hold
    exact stopped (h.roomy hold)
  obtain ⟨-, vacant⟩ | ⟨hold, -⟩ := h.cases down
  · exact ⟨fresh, vacant⟩
  · exact absurd fresh hold

theorem Changed.of_not_roomy {new : Assoc Text Json} {after : Machine} {fault : FileFault}
    (h : InOrder machine folder name entries) (down : name ≠ "..")
    (stopped : ¬ Roomy machine folder name)
    (fits : (Json.obj new).fits (Runtime.prints + 1) = true)
    (spared : Spared folder name machine after) (numbered : after.tree.Numbered)
    (still : Vacant machine folder name → Vacant after folder name) :
    Changed folder name entries new machine (.error (.file fault)) after := by
  obtain ⟨rfl, vacant⟩ := h.vacant_of_not_roomy down stopped
  exact ⟨spared, fun roomy => absurd roomy stopped,
    Or.inr (Or.inr ⟨⟨fault, rfl⟩, fits, rfl, stopped, .of_vacant numbered (still vacant)⟩)⟩

namespace Store

omit [Runtime] in
theorem clear_vacant (numbered : machine.tree.Numbered) (vacant : Vacant machine folder name)
    (down : name ≠ "..") :
    ∃ outcome after, (clear ⟨folder.child name⟩).exec machine = (outcome, after) ∧
      after.belongings = machine.belongings ∧
      (outcome = .ok () ∨ ((∃ fault, outcome = .error (.file fault)) ∧
        ¬ Roomy machine folder name)) := by
  have ha : machine.answer (.unlink (folder.child name)) =
      machine.edit (machine.tree.unlink machine.directory (folder.child name)) := rfl
  have stuck {fault : FileFault} (hne : fault ≠ .absent)
      (hu : machine.tree.unlink machine.directory (folder.child name) = .error fault) :
      (clear ⟨folder.child name⟩).exec machine = (.error (.file fault), machine) := by
    rw [hu] at ha
    have hr : (removeFile (folder.child name)).exec machine = (.error (.file fault), machine) := by
      refine (Action.exec_ask_bind ha).trans ?_
      cases fault <;> first | rfl | exact absurd rfl hne
    exact Action.exec_bind_error hr
  cases hf : machine.tree.find machine.directory (folder.child name) with
  | ok found =>
    obtain ⟨l, ⟨number, mode, content⟩ | mode⟩ := found
    · exact absurd hf (vacant machine.tree (.refl _ _ _) l number mode content)
    · have hu : machine.tree.unlink machine.directory (folder.child name) =
          .error .isDirectory := by
        rw [Tree.unlink, hf]
        rfl
      refine ⟨_, machine, stuck (by simp) hu, rfl, Or.inr ⟨⟨_, rfl⟩, fun roomy => ?_⟩⟩
      rw [roomy.find_absent numbered vacant down] at hf
      cases hf
  | error fault =>
    have hu : machine.tree.unlink machine.directory (folder.child name) = .error fault := by
      rw [Tree.unlink, hf]
      rfl
    by_cases hne : fault = .absent
    · rw [hu, hne] at ha
      have hr : (removeFile (folder.child name)).exec machine = (.ok false, machine) :=
        (Action.exec_ask_bind ha).trans rfl
      exact ⟨_, machine, (Action.exec_bind_ok hr).trans rfl, rfl, Or.inl rfl⟩
    · refine ⟨_, machine, stuck hne hu, rfl, Or.inr ⟨⟨_, rfl⟩, fun roomy => hne ?_⟩⟩
      rw [roomy.find_absent numbered vacant down] at hf
      exact (Except.error.inj hf).symm

theorem write_changed (h : InOrder machine folder name entries) (down : name ≠ "..")
    {new : Assoc Text Json} (hne : new ≠ []) (plain : (Json.obj new).isPlain = true)
    (fits : (Json.obj new).fits (Runtime.prints + 1) = true) :
    ∃ outcome after, (write (folder.child name) (.obj new)).exec machine = (outcome, after) ∧
      Changed folder name entries new machine outcome after := by
  have ho := octetsOf_eq_ok.mpr ⟨fits, rfl⟩
  obtain ⟨outcome, between, he, made⟩ := Folder.ensure_made folder machine
  have fixed := Machine.SameCircumstances.of_exec_eq he
  have numbered := h.numbered.of_exec_eq he
  have first : Spared folder name machine between :=
    .of_paved fixed.directory made.keychain made.paved
  rw [write, ho, Path.parent_child]
  dsimp only
  cases outcome with
  | error failure =>
    have stopped : ¬ Roomy machine folder name := by
      intro roomy
      obtain ⟨after, he'⟩ := Folder.ensure_of_canStand roomy.stands
      rw [he] at he'
      cases he'
    obtain ⟨fault, rfl⟩ := made.fault failure rfl
    exact ⟨_, between, Action.exec_bind_error he, .of_not_roomy h down stopped fits first numbered
      fun vacant => vacant.paved fixed.directory made.paved⟩
  | ok done =>
    have stands := made.stands.mp rfl
    rw [← fixed.directory] at stands
    obtain ⟨place, g⟩ := stands.exists_ground numbered
    obtain ⟨outcome, after, hr, keys, ⟨rfl, room, only, number, hu⟩ | ⟨⟨fault, rfl⟩, nodes⟩⟩ :=
      replaceFile_cases g down (octetsIn (.obj new))
    · have fixed' := Machine.SameCircumstances.of_exec_eq hr
      have g' := g.exec hr only
      have hn := room.isFileName down
      have room' : HasRoom after place name := room.of_under fun k =>
        only.under (temporaryName_ne name k)
      have written : Written after place name new := by
        rw [Written, if_neg (by simpa using hne)]
        exact ⟨number, hu⟩
      have done := InOrder.of_written g' hn room' plain ⟨_, fits⟩ hne written
      exact ⟨_, after, (Action.exec_bind_ok he).trans hr,
        first.trans (.of_changedOnly g hn fixed'.directory keys only), fun _ => done.roomy hne,
        Or.inl ⟨rfl, fits, done⟩⟩
    · have fixed' := Machine.SameCircumstances.of_exec_eq hr
      have stopped : ¬ Roomy machine folder name := by
        intro roomy
        obtain ⟨room, free⟩ := roomy.room between place fixed.directory made.paved g.leads
        obtain ⟨after, hr'⟩ := replaceFile_of_hasRoom g down room free (octetsIn (.obj new))
        rw [hr] at hr'
        cases hr'
      exact ⟨_, after, (Action.exec_bind_ok he).trans hr, .of_not_roomy h down stopped fits
        (first.trans (.of_nodes fixed'.directory keys nodes)) (numbered.of_exec_eq hr)
        fun vacant => (vacant.paved fixed.directory made.paved).of_nodes fixed'.directory nodes⟩

theorem clear_changed (h : InOrder machine folder name entries) (down : name ≠ "..") :
    ∃ outcome after, (clear ⟨folder.child name⟩).exec machine = (outcome, after) ∧
      Changed folder name entries [] machine outcome after := by
  rcases h.cases down with ⟨rfl, vacant⟩ | ⟨hold, place, g, hn, written⟩
  · obtain ⟨outcome, after, he, same, result⟩ := clear_vacant h.numbered vacant down
    have fixed := Machine.SameCircumstances.of_exec_eq he
    have tree : after.tree = machine.tree := congrArg Prod.fst same
    have still := h.of_tree fixed.directory tree
    refine ⟨outcome, after, he, .of_tree fixed.directory (congrArg Prod.snd same) tree,
      fun roomy => roomy.of_tree fixed.directory tree, ?_⟩
    rcases result with rfl | ⟨hf, stopped⟩
    · exact Or.inl ⟨rfl, rfl, still⟩
    · exact Or.inr (Or.inr ⟨hf, rfl, rfl, stopped, still⟩)
  · obtain ⟨room, free⟩ := (h.roomy hold).hasRoom g
    obtain ⟨after, he, only, gone, keys⟩ := clear_exec g hn free
    have fixed := Machine.SameCircumstances.of_exec_eq he
    have g' := g.exec he only
    have room' : HasRoom after place name := room.of_under fun k =>
      only.under (temporaryName_ne name k)
    refine ⟨_, after, he, .of_changedOnly g hn fixed.directory keys only,
      fun _ => .of_ground g' room' (by simp [gone]), Or.inl ⟨rfl, rfl, ?_⟩⟩
    exact .of_vacant g'.numbered (.of_ground g' hn gone)

theorem replace_changed (h : InOrder machine folder name entries) (down : name ≠ "..")
    {new : Assoc Text Json} (plain : (Json.obj new).isPlain = true) :
    ∃ outcome after, (replace ⟨folder.child name⟩ new).exec machine = (outcome, after) ∧
      Changed folder name entries new machine outcome after := by
  rw [replace]
  split_ifs with he
  · rw [List.isEmpty_iff.mp he]
    exact clear_changed h down
  · cases ho : octetsOf (.obj new) with
    | ok octets => exact write_changed h down (by simpa using he) plain (octetsOf_eq_ok.mp ho).1
    | error limit =>
      refine ⟨.error (.beyond limit), machine, ?_, .refl _, id,
        Or.inr (Or.inl ⟨limit, rfl, octetsOf_eq_error.mp ho, h⟩)⟩
      rw [write, ho]
      rfl

end Store

end SessionKeeper.Record
