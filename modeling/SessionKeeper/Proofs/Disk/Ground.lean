import SessionKeeper.Proofs.Script.Exec

/-!
# Files in a folder

What runs here works on files directly in one folder. While the folder stands, the path
of a name in it leads to that name, so the node under the name decides what reading,
probing, creating and removing do. `ChangedOnly` says that nothing but the files of
certain names has been touched, which leaves the folder itself standing.
-/
namespace SessionKeeper

def Machine.under (machine : Machine) (place : Location) (name : String) : Option Node :=
  machine.tree.node? (place ++ [name])

/-- A folder that stands at a place of a machine in order. -/
structure Ground (machine : Machine) (folder : Path) (place : Location) : Prop where
  leads : machine.tree.locate machine.directory folder = .ok place
  stands : machine.tree.isDirectory place = true
  numbered : machine.tree.Numbered

/-- Nothing was changed but what stands under some names at a place. -/
structure ChangedOnly (place : Location) (names : String → Prop) (before after : Machine) :
    Prop where
  elsewhere : ∀ l, (∀ name, names name → l ≠ place ++ [name]) →
    after.tree.node? l = before.tree.node? l
  directories : ∀ l, before.tree.isDirectory l = true → after.tree.isDirectory l = true

namespace ChangedOnly

variable {place : Location} {names more : String → Prop} {a b c : Machine}

theorem of_tree (h : b.tree = a.tree) : ChangedOnly place names a b :=
  ⟨fun _ _ => by rw [h], fun _ hl => by rw [h]; exact hl⟩

theorem refl (machine : Machine) : ChangedOnly place names machine machine := of_tree rfl

theorem trans (h : ChangedOnly place names a b) (k : ChangedOnly place names b c) :
    ChangedOnly place names a c where
  elsewhere l hl := (k.elsewhere l hl).trans (h.elsewhere l hl)
  directories l hl := k.directories l (h.directories l hl)

theorem mono (h : ChangedOnly place names a b) (hn : ∀ name, names name → more name) :
    ChangedOnly place more a b where
  elsewhere l hl := h.elsewhere l fun name hname => hl name (hn name hname)
  directories := h.directories

/-- A name that is not among those that changed stands for what it stood for. -/
theorem under (h : ChangedOnly place names a b) {name : String} (hn : ¬ names name) :
    b.under place name = a.under place name := by
  refine h.elsewhere _ fun other ho heq => ?_
  have hname : name = other := by simpa using List.append_cancel_left heq
  exact hn (hname ▸ ho)

end ChangedOnly

namespace Ground

variable {machine after : Machine} {folder : Path} {place : Location} {names : String → Prop}

/-- The folder still stands after a run that touched nothing but files in it. -/
theorem kept (g : Ground machine folder place) (h : ChangedOnly place names machine after)
    (fixed : machine.SameCircumstances after) (numbered : after.tree.Numbered) :
    Ground after folder place where
  leads := by
    rw [fixed.directory]
    exact Tree.walk_of_directories h.directories _ _ _ g.leads
  stands := h.directories _ g.stands
  numbered := numbered

theorem exec {α : Type} (g : Ground machine folder place) {action : Action α}
    {outcome : Except Failure α} (he : action.exec machine = (outcome, after))
    (h : ChangedOnly place names machine after) : Ground after folder place := by
  have hm : after = (action.run.run machine).2 := (congrArg Prod.snd he).symm
  refine g.kept h ?_ ?_
  · rw [hm]
    exact .of_run _ _
  · rw [hm]
    exact g.numbered.of_run _

theorem answer (g : Ground machine folder place) {request : Request} {answer : request.Answer}
    (ha : machine.answer request = (answer, after))
    (h : ChangedOnly place names machine after) : Ground after folder place := by
  have hm : after = (machine.answer request).2 := (congrArg Prod.snd ha).symm
  refine g.kept h ?_ ?_
  · rw [hm]
    exact machine.answer_fixed request
  · rw [hm]
    exact machine.answer_numbered request g.numbered

theorem kept_writeFile (g : Ground machine folder place) (number : Nat) (content : Octets) :
    Ground (machine.answer (.writeFile number content)).2 folder place := by
  have directories (l : Location) (hl : machine.tree.isDirectory l = true) :
      (machine.answer (.writeFile number content)).2.tree.isDirectory l = true := by
    obtain ⟨mode, hm⟩ := (Tree.isDirectory_iff l).mp hl
    have hn : (machine.tree.writeFile number content).node? l = some (.directory mode) := by
      rw [Tree.node?_writeFile, hm]
      rfl
    exact (Tree.isDirectory_iff l).mpr ⟨mode, hn⟩
  exact ⟨Tree.walk_of_directories directories _ _ _ g.leads, directories _ g.stands,
    machine.answer_numbered _ g.numbered⟩

theorem locate (g : Ground machine folder place) {name : String} (hn : Tree.IsFileName name) :
    machine.tree.locate machine.directory (folder.child name) = .ok (place ++ [name]) :=
  Tree.locate_child g.leads g.stands hn

theorem find (g : Ground machine folder place) {name : String} (hn : Tree.IsFileName name) :
    machine.tree.find machine.directory (folder.child name) =
      match machine.under place name with
      | some node => .ok (place ++ [name], node)
      | none => .error .absent :=
  Tree.find_child g.leads g.stands hn

/-- What reading a node gives. -/
def contentOf : Option Node → Except FileFault Octets
  | some (.file _ _ content) => .ok content
  | some (.directory _) => .error .isDirectory
  | none => .error .absent

theorem answer_readFile (g : Ground machine folder place) {name : String}
    (hn : Tree.IsFileName name) : machine.answer (.readFile (folder.child name)) =
      (contentOf (machine.under place name), machine) := by
  have h : machine.tree.read machine.directory (folder.child name) =
      contentOf (machine.under place name) := by
    rw [Tree.read, g.find hn]
    rcases machine.under place name with _ | ⟨_ | _⟩ <;> rfl
  show (machine.tree.read machine.directory (folder.child name), machine) = _
  rw [h]

def kindOf : Option Node → Except FileFault Kind
  | some node => .ok node.kind
  | none => .error .absent

theorem answer_probe (g : Ground machine folder place) {name : String}
    (hn : Tree.IsFileName name) : machine.answer (.probe (folder.child name)) =
      (kindOf (machine.under place name), machine) := by
  have h : machine.tree.kind machine.directory (folder.child name) =
      kindOf (machine.under place name) := by
    rw [Tree.kind, g.find hn]
    rcases machine.under place name with _ | _ <;> rfl
  show (machine.tree.kind machine.directory (folder.child name), machine) = _
  rw [h]

/-- The folder cannot be made once more. -/
theorem answer_makeDirectory (g : Ground machine folder place) (mode : Nat) :
    machine.answer (.makeDirectory folder mode) = (.error .present, machine) := by
  obtain ⟨old, hm⟩ := (Tree.isDirectory_iff place).mp g.stands
  have h : machine.tree.makeDirectory machine.directory folder mode = .error .present := by
    rw [Tree.makeDirectory, g.leads]
    simp only [bind, Except.bind, hm]
    rfl
  show machine.edit _ = _
  rw [h]
  rfl

theorem answer_probe_folder (g : Ground machine folder place) :
    machine.answer (.probe folder) = (.ok .directory, machine) := by
  obtain ⟨mode, hm⟩ := (Tree.isDirectory_iff place).mp g.stands
  have h : machine.tree.kind machine.directory folder = .ok .directory := by
    rw [Tree.kind, Tree.find, g.leads]
    simp only [bind, Except.bind, hm]
    rfl
  show (machine.tree.kind machine.directory folder, machine) = _
  rw [h]
  rfl

theorem isThere_exec (g : Ground machine folder place) :
    (Folder.isThere folder).exec machine = (.ok true, machine) :=
  (Action.exec_ask_bind g.answer_probe_folder).trans rfl

theorem answer_listDirectory (g : Ground machine folder place) :
    machine.answer (.listDirectory folder) = (.ok (machine.tree.namesBelow place), machine) := by
  obtain ⟨mode, hm⟩ := (Tree.isDirectory_iff place).mp g.stands
  have h : machine.tree.list machine.directory folder = .ok (machine.tree.namesBelow place) := by
    rw [Tree.list, Tree.find, g.leads]
    simp only [bind, Except.bind, hm]
    rfl
  show (machine.tree.list machine.directory folder, machine) = _
  rw [h]
  rfl

/-- Asking for the folder itself finds it there, and nothing is made. -/
theorem ensure_exec (g : Ground machine folder place) :
    (Folder.ensure folder).exec machine = (.ok (), machine) := by
  have haccept : (Folder.accept folder .present).exec machine = (.ok (), machine) := by
    rw [Folder.accept, Action.exec_bind_ok g.isThere_exec]
    rfl
  rw [Folder.ensure, Folder.makeWithin.eq_def]
  simp only [Action.exec_bind, Action.exec_ask, g.answer_makeDirectory, haccept]

/-- Where only one name stands for something else, only that name was touched. -/
theorem changedOnly_of_node {name : String} {node : Option Node}
    (hf : ∀ mode, machine.under place name ≠ some (.directory mode))
    (h : ∀ l, after.tree.node? l = if place ++ [name] = l then node else machine.tree.node? l) :
    ChangedOnly place (· = name) machine after := by
  refine ⟨fun l hl => ?_, fun l hl => ?_⟩
  · rw [h, if_neg (Ne.symm (hl name rfl))]
  · rw [Tree.isDirectory_iff] at hl ⊢
    obtain ⟨mode, hm⟩ := hl
    have hne : place ++ [name] ≠ l := by
      rintro rfl
      exact hf mode hm
    exact ⟨mode, by rw [h, if_neg hne, hm]⟩

def without (machine : Machine) (place : Location) (name : String) : Machine :=
  { machine with tree := machine.tree.remove (place ++ [name]) }

theorem node?_without (machine : Machine) (name : String) (l : Location) :
    (without machine place name).tree.node? l =
      if place ++ [name] = l then none else machine.tree.node? l := by
  by_cases hr : l = []
  · subst hr
    rw [if_neg (by simp)]
    rfl
  · exact Tree.node?_remove machine.tree _ l hr

theorem under_without (machine : Machine) (place : Location) (name : String) :
    (without machine place name).under place name = none := by
  rw [Machine.under, node?_without, if_pos rfl]

theorem changedOnly_without (name : String)
    (hf : ∀ mode, machine.under place name ≠ some (.directory mode)) :
    ChangedOnly place (· = name) machine (without machine place name) :=
  changedOnly_of_node hf (node?_without machine name)

/-- Removing takes away a file and nothing else. -/
theorem answer_unlink (g : Ground machine folder place) {name : String}
    (hn : Tree.IsFileName name) : machine.answer (.unlink (folder.child name)) =
      match machine.under place name with
      | some (.file ..) => (.ok (), without machine place name)
      | some (.directory _) => (.error .isDirectory, machine)
      | none => (.error .absent, machine) := by
  show machine.edit (machine.tree.unlink machine.directory (folder.child name)) = _
  rw [Tree.unlink, g.find hn]
  rcases machine.under place name with _ | ⟨_ | _⟩ <;> rfl

def withFile (machine : Machine) (place : Location) (name : String) (mode : Nat)
    (content : Octets) : Machine :=
  { machine with
    tree := { machine.tree.put (place ++ [name]) (.file machine.tree.nextNumber mode content) with
      nextNumber := machine.tree.nextNumber + 1 } }

theorem node?_withFile (machine : Machine) (name : String) (mode : Nat) (content : Octets)
    (l : Location) : (withFile machine place name mode content).tree.node? l =
      if place ++ [name] = l then some (.file machine.tree.nextNumber mode content)
      else machine.tree.node? l := by
  by_cases hr : l = []
  · subst hr
    rw [if_neg (by simp)]
    rfl
  · exact Tree.node?_put machine.tree _ l _ hr

theorem under_withFile (machine : Machine) (place : Location) (name : String) (mode : Nat)
    (content : Octets) : (withFile machine place name mode content).under place name =
      some (.file machine.tree.nextNumber mode content) := by
  rw [Machine.under, node?_withFile, if_pos rfl]

theorem changedOnly_withFile (name : String) (mode : Nat) (content : Octets)
    (hf : machine.under place name = none) :
    ChangedOnly place (· = name) machine (withFile machine place name mode content) :=
  changedOnly_of_node (fun _ h => nomatch hf ▸ h) (node?_withFile machine name mode content)

/-- The folder still stands with a new file in it. -/
theorem kept_withFile (g : Ground machine folder place) {name : String} (mode : Nat)
    (content : Octets) (free : machine.under place name = none) :
    Ground (withFile machine place name mode content) folder place :=
  g.kept (changedOnly_withFile name mode content free) ⟨rfl, rfl, rfl, rfl, rfl, rfl, rfl⟩
    (g.numbered.put_new _ mode content)

/-- Creating makes an empty file where nothing stands. -/
theorem create_child (g : Ground machine folder place) {name : String}
    (hn : Tree.IsFileName name) (mode : Nat) : machine.create (folder.child name) mode =
      match machine.under place name with
      | none => (.ok machine.tree.nextNumber, withFile machine place name (Tree.masked mode) [])
      | some _ => (.error .present, machine) := by
  rw [Machine.create, Tree.createFile, g.locate hn, Machine.under]
  simp only [bind, Except.bind]
  cases machine.tree.node? (place ++ [name]) <;> rfl

theorem create_long (g : Ground machine folder place) {name : String} (down : name ≠ "..")
    (long : Tree.isTooLong name = true) (mode : Nat) :
    machine.create (folder.child name) mode = (.error .nameTooLong, machine) := by
  rw [Machine.create, Tree.createFile, Tree.locate_long g.leads g.stands down long]
  rfl

/-- The tree once the new file has been written. -/
theorem node?_filled (hd : machine.tree.Numbered) (place : Location) (name : String) (mode : Nat)
    (content : Octets) (l : Location) :
    ((withFile machine place name mode []).tree.writeFile machine.tree.nextNumber content).node? l =
      if place ++ [name] = l then some (.file machine.tree.nextNumber mode content)
      else machine.tree.node? l := by
  rw [Tree.node?_writeFile, node?_withFile]
  split_ifs
  · simp [Tree.Node.write]
  · cases hl : machine.tree.node? l with
    | none => rfl
    | some node =>
      cases node with
      | directory mode => rfl
      | file number mode old =>
        have hlt := hd.below _ _ _ _ hl
        rw [Option.map_some, Tree.Node.write, if_neg (Nat.ne_of_lt hlt)]

/-- A new file is made where nothing stands, and then it is filled. -/
theorem answer_fill (g : Ground machine folder place) {name : String}
    (free : machine.under place name = none) (mode : Nat) (content : Octets) :
    ∃ after, (withFile machine place name mode []).answer
        (.writeFile machine.tree.nextNumber content) = ((), after) ∧
      ChangedOnly place (· = name) machine after ∧
      after.under place name = some (.file machine.tree.nextNumber mode content) ∧
      after.keychain = machine.keychain := by
  have nodes := node?_filled g.numbered place name mode content
  refine ⟨_, rfl, changedOnly_of_node (by simp [free]) nodes, ?_, rfl⟩
  exact (nodes _).trans (if_pos rfl)

theorem answer_writeFile (g : Ground machine folder place) {name : String} {number mode : Nat}
    {old : Octets} (hu : machine.under place name = some (.file number mode old))
    (content : Octets) :
    ChangedOnly place (· = name) machine (machine.answer (.writeFile number content)).2 ∧
      (machine.answer (.writeFile number content)).2.under place name =
        some (.file number mode content) := by
  have node (l : Location) : (machine.answer (.writeFile number content)).2.tree.node? l =
      if place ++ [name] = l then some (.file number mode content) else machine.tree.node? l := by
    show (machine.tree.writeFile number content).node? l = _
    rw [Tree.node?_writeFile]
    split_ifs with hl
    · rw [← hl, show machine.tree.node? (place ++ [name]) = _ from hu]
      simp [Tree.Node.write]
    · cases hn : machine.tree.node? l with
      | none => rfl
      | some node =>
        cases node with
        | directory mode => rfl
        | file other mode old =>
          have hne : other ≠ number := by
            rintro rfl
            exact hl (g.numbered.distinct _ _ _ _ _ _ _ hu hn)
          rw [Option.map_some, Tree.Node.write, if_neg hne]
  refine ⟨changedOnly_of_node (by simp [hu]) node, ?_⟩
  rw [Machine.under, node, if_pos rfl]

def withNode (machine : Machine) (place : Location) (name : String) (node : Node) : Machine :=
  { machine with tree := machine.tree.put (place ++ [name]) node }

theorem node?_withNode (machine : Machine) (name : String) (node : Node) (l : Location) :
    (withNode machine place name node).tree.node? l =
      if place ++ [name] = l then some node else machine.tree.node? l := by
  by_cases hr : l = []
  · subst hr
    rw [if_neg (by simp)]
    rfl
  · exact Tree.node?_put machine.tree _ l _ hr

theorem answer_setMode (g : Ground machine folder place) {name : String}
    (hn : Tree.IsFileName name) (mode : Nat) {number old : Nat} {content : Octets}
    (hf : machine.under place name = some (.file number old content)) :
    machine.answer (.setMode (folder.child name) mode) =
      (.ok (), withNode machine place name (.file number mode content)) := by
  show machine.edit (machine.tree.setMode machine.directory (folder.child name) mode) = _
  rw [Tree.setMode, g.find hn, hf]
  rfl

/-- Moving a file puts it where no directory stands. -/
theorem answer_rename (g : Ground machine folder place) {source target : String}
    (hs : Tree.IsFileName source) (ht : Tree.IsFileName target) {node : Node}
    (hf : machine.under place source = some node)
    (plain : ∀ mode, machine.under place target ≠ some (.directory mode)) :
    machine.answer (.rename (folder.child source) (folder.child target)) =
      (.ok (), withNode (without machine place source) place target node) := by
  have hd : machine.tree.isDirectory (place ++ [target]) = false := by
    rw [Bool.eq_false_iff]
    intro h
    obtain ⟨mode, hm⟩ := (Tree.isDirectory_iff _).mp h
    exact plain mode hm
  show machine.edit (machine.tree.rename machine.directory _ _) = _
  rw [Tree.rename, g.find hs, hf]
  simp only [bind, Except.bind, g.locate ht, hd]
  rfl

/-- Nothing is moved onto a directory. -/
theorem answer_rename_directory (g : Ground machine folder place) {source target : String}
    (hs : Tree.IsFileName source) (ht : Tree.IsFileName target) {node : Node}
    (hf : machine.under place source = some node)
    (taken : ∃ mode, machine.under place target = some (.directory mode)) :
    machine.answer (.rename (folder.child source) (folder.child target)) =
      (.error .isDirectory, machine) := by
  have hd : machine.tree.isDirectory (place ++ [target]) = true := (Tree.isDirectory_iff _).mpr taken
  show machine.edit (machine.tree.rename machine.directory _ _) = _
  rw [Tree.rename, g.find hs, hf]
  simp only [bind, Except.bind, g.locate ht, hd]
  rfl

end Ground

/-- That an operation touches nothing but the files of some names in a folder. -/
def Action.Confined {α : Type} (folder : Path) (place : Location) (names : String → Prop)
    (action : Action α) : Prop :=
  ∀ machine, Ground machine folder place → ChangedOnly place names machine (action.exec machine).2

namespace Action.Confined

variable {α β : Type} {folder : Path} {place : Location} {names more : String → Prop}

theorem of_passive {action : Action α} (h : action.IsPassive) :
    action.Confined folder place names := fun machine _ => .of_tree (h.tree machine)

theorem pure (a : α) : (Pure.pure a : Action α).Confined folder place names := of_passive (.pure a)

/-- A sequence touches what its parts touch. -/
theorem bind {x : Action α} {f : α → Action β} (hx : x.Confined folder place names)
    (hf : ∀ a, (f a).Confined folder place names) : (x >>= f).Confined folder place names := by
  intro machine g
  have h := hx machine g
  rw [Action.exec_bind]
  rcases he : x.exec machine with ⟨_ | a, after⟩ <;> rw [he] at h
  · exact h
  · exact h.trans (hf a after (g.exec he h))

theorem mono {action : Action α} (h : action.Confined folder place names)
    (hn : ∀ name, names name → more name) : action.Confined folder place more :=
  fun machine g => (h machine g).mono hn

end Action.Confined

theorem Ground.unlink_confined {folder : Path} {place : Location} {name : String}
    (hn : Tree.IsFileName name) :
    (Action.ask (.unlink (folder.child name))).Confined folder place (· = name) := by
  intro machine g
  have ha := g.answer_unlink hn
  rw [Action.exec_ask, ha]
  cases hu : machine.under place name with
  | none => exact .refl _
  | some node =>
    cases node with
    | directory mode => exact .refl _
    | file number mode content =>
      refine Ground.changedOnly_without name fun mode' hm => ?_
      rw [hu] at hm
      nomatch hm

/-- A machine with nothing but an empty folder, and a keyserver that knows one passphrase. -/
def Machine.bare : Machine where
  tree := ⟨[(["home"], .directory 0o700)], 0⟩
  directory := []
  now := ⟨⟨2024, 2, 29, by decide, by decide, by decide⟩, Moment.midnight, some 0⟩
  processId := 7
  environment := []
  homes := []
  offer := .missing
  keychain := []
  keyserver := fun _ _ => .ok ⟨200, Utf8.encodeChars "p".toList, none⟩
  requests := 0
  input := []
  transcript := []

theorem Machine.ground_bare : Ground Machine.bare ⟨"/", ["home"]⟩ ["home"] := by
  have no_file (l : Location) (number mode : Nat) (content : Octets) :
      Machine.bare.tree.node? l ≠ some (.file number mode content) := by
    simp only [Machine.bare, Tree.node?, Assoc.value?_cons, Assoc.value?_nil]
    split_ifs <;> simp
  exact ⟨rfl, rfl, ⟨fun l number mode content h => absurd h (no_file _ _ _ _),
    fun l _ number mode _ content _ h => absurd h (no_file _ _ _ _)⟩⟩

theorem Machine.under_bare (name : String) : Machine.bare.under ["home"] name = none := by
  simp [Machine.under, Machine.bare, Tree.node?]

end SessionKeeper
