import SessionKeeper.Proofs.Assoc
import SessionKeeper.Proofs.Disk.Tree

/-!
# Trees that differ in hidden contents

Two trees are twins when the same stands at every location, but for the contents of files at
hidden locations. Whatever is done to both of them alike is refused by both for the same reason,
or done by both and leaves twins: a file with a hidden content has only to stay hidden when it is
moved.
-/
namespace SessionKeeper

/-- How the nodes at a location compare: they are the same, or at a hidden location files with
contents that go together. -/
inductive Node.Twin (hidden : Location → Prop) (R : Octets → Octets → Prop) (l : Location) :
    Node → Node → Prop where
  | same (node : Node) : Twin hidden R l node node
  | hidden (here : hidden l) (number mode : Nat) {c d : Octets} (h : R c d) :
    Twin hidden R l (.file number mode c) (.file number mode d)

/-- That the same stands everywhere in two trees but for hidden contents. -/
structure Tree.Twin (hidden : Location → Prop) (R : Octets → Octets → Prop) (s t : Tree) : Prop where
  keys : t.nodes.keys = s.nodes.keys
  nextNumber : t.nextNumber = s.nextNumber
  nodes : ∀ l, Option.Rel (Node.Twin hidden R l) (s.node? l) (t.node? l)

/-- How two changes of trees compare: they are refused for the same reason, or leave twins. -/
inductive Tree.TwinResult (hidden : Location → Prop) (R : Octets → Octets → Prop) :
    Except FileFault Tree → Except FileFault Tree → Prop where
  | ok {s t : Tree} (h : Tree.Twin hidden R s t) : TwinResult hidden R (.ok s) (.ok t)
  | error (fault : FileFault) : TwinResult hidden R (.error fault) (.error fault)

variable {hidden more : Location → Prop} {R : Octets → Octets → Prop} {l : Location}

namespace Node.Twin

variable {a b : Node}

theorem kind_eq (h : Node.Twin hidden R l a b) : b.kind = a.kind := by
  cases h <;> rfl

theorem mono (h : Node.Twin hidden R l a b) (wider : hidden l → more l) :
    Node.Twin more R l a b := by
  cases h with
  | same => exact .same a
  | hidden here number mode h => exact .hidden (wider here) number mode h

end Node.Twin

namespace Tree

variable {tree : Tree} {directory l : Location} {path : Path}

theorem find_of_leads {node : Node} (leads : tree.locate directory path = .ok l)
    (there : tree.node? l = some node) : tree.find directory path = .ok (l, node) := by
  rw [find, leads]
  simp only [bind, Except.bind, there]
  rfl

/-- Paths lead where they did when something is put where no directory was. -/
theorem locate_put {after : Tree} {node : Node} (put : ∀ x, after.node? x = (tree.put l node).node? x)
    (free : tree.isDirectory l = false) {goal : Location}
    (h : tree.locate directory path = .ok goal) : after.locate directory path = .ok goal := by
  refine walk_of_directories (fun x hx => ?_) _ _ _ h
  by_cases root : x = []
  · rw [root]
    rfl
  · have other : l ≠ x := by
      rintro rfl
      rw [free] at hx
      cases hx
    rw [isDirectory, put, node?_put _ _ _ _ root, if_neg other]
    exact hx

theorem locate_writeFile {number : Nat} {content : Octets} {goal : Location}
    (h : tree.locate directory path = .ok goal) :
    (tree.writeFile number content).locate directory path = .ok goal := by
  refine walk_of_directories (fun x hx => ?_) _ _ _ h
  obtain ⟨mode, hm⟩ := (isDirectory_iff x).mp hx
  refine (isDirectory_iff x).mpr ⟨mode, ?_⟩
  rw [node?_writeFile, hm]
  rfl

/-- A file that was created stands where nothing did. -/
theorem createFile_ok {mode number : Nat} {after : Tree}
    (h : tree.createFile directory path mode = .ok (number, after)) :
    ∃ l, after.locate directory path = .ok l ∧
      after.node? l = some (.file number (masked mode) []) := by
  obtain ⟨l, leads, h⟩ := exists_of_bind_ok h
  cases free : tree.node? l with
  | some node =>
    rw [free] at h
    cases h
  | none =>
    rw [free] at h
    obtain ⟨rfl, made⟩ := Prod.mk.inj (Except.ok.inj h)
    have put (x : Location) : after.node? x =
        (tree.put l (.file tree.nextNumber (masked mode) [])).node? x := made ▸ rfl
    have bare : tree.isDirectory l = false := by
      rw [isDirectory, free]
      rfl
    have root : l ≠ [] := by
      rintro rfl
      cases free
    refine ⟨l, locate_put put bare leads, ?_⟩
    rw [put, node?_put _ _ _ _ root, if_pos rfl]

end Tree

namespace Tree.Twin

variable {s t : Tree}

theorem refl (tree : Tree) : Tree.Twin hidden R tree tree := by
  refine ⟨rfl, rfl, fun l => ?_⟩
  cases tree.node? l with
  | none => exact .none
  | some node => exact .some (.same node)

theorem mono (h : Tree.Twin hidden R s t) (wider : ∀ l, hidden l → more l) :
    Tree.Twin more R s t := by
  refine ⟨h.keys, h.nextNumber, fun l => ?_⟩
  have node := h.nodes l
  generalize s.node? l = a at node ⊢
  generalize t.node? l = b at node ⊢
  cases node with
  | none => exact .none
  | some node => exact .some (node.mono (wider l))

/-- A location where nothing stands need not be hidden. -/
theorem narrow (h : Tree.Twin more R s t) (gone : ∀ l, more l → hidden l ∨ s.node? l = none) :
    Tree.Twin hidden R s t := by
  refine ⟨h.keys, h.nextNumber, fun l => ?_⟩
  have node := h.nodes l
  have gone := gone l
  generalize s.node? l = a at node gone ⊢
  generalize t.node? l = b at node ⊢
  cases node with
  | none => exact .none
  | some node =>
    exact .some (node.mono fun here => (gone here).resolve_right (Option.some_ne_none _))

theorem isDirectory_eq (h : Tree.Twin hidden R s t) (l : Location) :
    t.isDirectory l = s.isDirectory l := by
  have node := h.nodes l
  rw [Tree.isDirectory, Tree.isDirectory]
  generalize s.node? l = a at node ⊢
  generalize t.node? l = b at node ⊢
  cases node with
  | none => rfl
  | some node => rw [Option.map_some, Option.map_some, node.kind_eq]

theorem walk_eq (h : Tree.Twin hidden R s t) (start : Location) (parts : List String) :
    t.walk start parts = s.walk start parts := by
  induction parts generalizing start with
  | nil => rfl
  | cons part rest ih =>
    rw [walk, walk]
    have node := h.nodes start
    generalize s.node? start = a at node ⊢
    generalize t.node? start = b at node ⊢
    cases node with
    | none => rfl
    | @some a b node =>
      cases node with
      | hidden => rfl
      | same =>
        cases a with
        | file number mode content => rfl
        | directory mode =>
          dsimp only
          rw [ih, ih]

theorem locate_eq (h : Tree.Twin hidden R s t) (directory : Location) (path : Path) :
    t.locate directory path = s.locate directory path := h.walk_eq _ _

/-- A path leads nowhere in both trees, or to nodes that compare. -/
theorem find_cases (h : Tree.Twin hidden R s t) (directory : Location) (path : Path) :
    (∃ fault, s.find directory path = .error fault ∧ t.find directory path = .error fault) ∨
      ∃ l a b, s.locate directory path = .ok l ∧ s.find directory path = .ok (l, a) ∧
        t.find directory path = .ok (l, b) ∧ Node.Twin hidden R l a b := by
  rw [find, find, h.locate_eq]
  cases s.locate directory path with
  | error fault => exact .inl ⟨fault, rfl, rfl⟩
  | ok l =>
    have node := h.nodes l
    simp only [bind, Except.bind]
    generalize s.node? l = a at node ⊢
    generalize t.node? l = b at node ⊢
    cases node with
    | none => exact .inl ⟨.absent, rfl, rfl⟩
    | some node => exact .inr ⟨l, _, _, rfl, rfl, rfl, node⟩

theorem kind_eq (h : Tree.Twin hidden R s t) (directory : Location) (path : Path) :
    t.kind directory path = s.kind directory path := by
  rw [kind, kind]
  rcases h.find_cases directory path with ⟨fault, hs, ht⟩ | ⟨l, a, b, -, hs, ht, node⟩
  · rw [hs, ht]
  · rw [hs, ht]
    exact congrArg Except.ok node.kind_eq

theorem namesBelow_eq (h : Tree.Twin hidden R s t) (l : Location) :
    t.namesBelow l = s.namesBelow l := by
  rw [namesBelow_eq_filterMap, namesBelow_eq_filterMap, h.keys]

theorem list_eq (h : Tree.Twin hidden R s t) (directory : Location) (path : Path) :
    t.list directory path = s.list directory path := by
  rw [list, list]
  rcases h.find_cases directory path with ⟨fault, hs, ht⟩ | ⟨l, a, b, -, hs, ht, node⟩
  · rw [hs, ht]
    rfl
  · rw [hs, ht]
    cases node with
    | hidden => rfl
    | same =>
      cases a with
      | file number mode content => rfl
      | directory mode => exact congrArg Except.ok (h.namesBelow_eq l)

theorem read_cases (h : Tree.Twin hidden R s t) (directory : Location) (path : Path) :
    t.read directory path = s.read directory path ∨ ∃ l c d, s.locate directory path = .ok l ∧
      hidden l ∧ s.read directory path = .ok c ∧ t.read directory path = .ok d ∧ R c d := by
  rw [read, read]
  rcases h.find_cases directory path with ⟨fault, hs, ht⟩ | ⟨l, a, b, hl, hs, ht, node⟩
  · rw [hs, ht]
    exact .inl rfl
  · rw [hs, ht]
    cases node with
    | same => exact .inl rfl
    | hidden here number mode h => exact .inr ⟨l, _, _, hl, here, rfl, rfl, h⟩

theorem put (h : Tree.Twin hidden R s t) {a b : Node} (node : Node.Twin hidden R l a b) :
    Tree.Twin hidden R (s.put l a) (t.put l b) := by
  refine ⟨?_, h.nextNumber, fun other => ?_⟩
  · show Assoc.keys (Assoc.put _ _ _) = Assoc.keys (Assoc.put _ _ _)
    rw [Assoc.keys_put, Assoc.keys_put, h.keys]
  · by_cases root : other = []
    · rw [root]
      exact .some (.same _)
    · rw [node?_put _ _ _ _ root, node?_put _ _ _ _ root]
      split_ifs with here
      · exact .some (here ▸ node)
      · exact h.nodes other

theorem remove (h : Tree.Twin hidden R s t) (l : Location) :
    Tree.Twin hidden R (s.remove l) (t.remove l) := by
  refine ⟨?_, h.nextNumber, fun other => ?_⟩
  · show Assoc.keys (Assoc.remove _ _) = Assoc.keys (Assoc.remove _ _)
    rw [Assoc.keys_remove, Assoc.keys_remove, h.keys]
  · by_cases root : other = []
    · rw [root]
      exact .some (.same _)
    · rw [node?_remove _ _ _ root, node?_remove _ _ _ root]
      split_ifs
      · exact .none
      · exact h.nodes other

theorem makeDirectory (h : Tree.Twin hidden R s t) (directory : Location) (path : Path)
    (mode : Nat) : TwinResult hidden R (s.makeDirectory directory path mode)
      (t.makeDirectory directory path mode) := by
  rw [Tree.makeDirectory, Tree.makeDirectory, h.locate_eq]
  cases s.locate directory path with
  | error fault => exact .error fault
  | ok l =>
    have node := h.nodes l
    simp only [bind, Except.bind]
    generalize s.node? l = a at node ⊢
    generalize t.node? l = b at node ⊢
    cases node with
    | none => exact .ok (h.put (.same _))
    | some node => exact .error .present

theorem createFile_cases (h : Tree.Twin hidden R s t) (directory : Location) (path : Path)
    (mode : Nat) :
    (∃ fault, s.createFile directory path mode = .error fault ∧
      t.createFile directory path mode = .error fault) ∨
    ∃ number s' t', s.createFile directory path mode = .ok (number, s') ∧
      t.createFile directory path mode = .ok (number, t') ∧ Tree.Twin hidden R s' t' := by
  rw [Tree.createFile, Tree.createFile, h.locate_eq, h.nextNumber]
  cases s.locate directory path with
  | error fault => exact .inl ⟨fault, rfl, rfl⟩
  | ok l =>
    have node := h.nodes l
    have made : Node.Twin hidden R l (.file s.nextNumber (masked mode) [])
        (.file s.nextNumber (masked mode) []) := .same _
    have put := h.put made
    simp only [bind, Except.bind]
    generalize s.node? l = a at node ⊢
    generalize t.node? l = b at node ⊢
    cases node with
    | none => exact .inr ⟨_, _, _, rfl, rfl, ⟨put.keys, rfl, put.nodes⟩⟩
    | some node => exact .inl ⟨.present, rfl, rfl⟩

theorem writeFile (h : Tree.Twin hidden R s t) {number : Nat} {c d : Octets}
    (content : c = d ∨ R c d ∧ ∀ l mode old,
      s.node? l = some (.file number mode old) → hidden l) :
    Tree.Twin hidden R (s.writeFile number c) (t.writeFile number d) := by
  have keys (tree : Tree) (content : Octets) :
      (tree.writeFile number content).nodes.keys = tree.nodes.keys :=
    Assoc.keys_map tree.nodes (Node.write number content)
  refine ⟨by rw [keys, keys, h.keys], h.nextNumber, fun l => ?_⟩
  rw [node?_writeFile, node?_writeFile]
  have node := h.nodes l
  have files (mode : Nat) (old : Octets) (hn : s.node? l = some (.file number mode old)) :
      c = d ∨ R c d ∧ hidden l := content.imp_right fun ⟨hr, there⟩ => ⟨hr, there l mode old hn⟩
  generalize s.node? l = a at node files ⊢
  generalize t.node? l = b at node ⊢
  cases node with
  | none => exact .none
  | @some a b node =>
    refine .some ?_
    cases node with
    | hidden here n mode old =>
      rw [Node.write, Node.write]
      split_ifs with same
      · rcases files mode _ (by rw [same]) with rfl | ⟨hr, -⟩
        · exact .same _
        · exact .hidden here n mode hr
      · exact .hidden here n mode old
    | same =>
      cases a with
      | directory mode => exact .same _
      | file n mode old =>
        rw [Node.write, Node.write]
        split_ifs with same
        · rcases files mode old (by rw [same]) with rfl | ⟨hr, here⟩
          · exact .same _
          · exact .hidden here n mode hr
        · exact .same _

theorem setMode (h : Tree.Twin hidden R s t) (directory : Location) (path : Path) (mode : Nat) :
    TwinResult hidden R (s.setMode directory path mode) (t.setMode directory path mode) := by
  rw [Tree.setMode, Tree.setMode]
  rcases h.find_cases directory path with ⟨fault, hs, ht⟩ | ⟨l, a, b, -, hs, ht, node⟩
  · rw [hs, ht]
    exact .error fault
  · rw [hs, ht]
    cases node with
    | hidden here number old hr => exact .ok (h.put (.hidden here number mode hr))
    | same =>
      cases a with
      | file number old content => exact .ok (h.put (.same _))
      | directory old => exact .ok (h.put (.same _))

/-- A file is moved in both trees; one that is hidden has to come where it is hidden again. -/
theorem rename (h : Tree.Twin hidden R s t) (directory : Location) (source target : Path)
    (stays : ∀ l goal, s.locate directory source = .ok l → s.locate directory target = .ok goal →
      hidden l → hidden goal) : TwinResult hidden R (s.rename directory source target)
        (t.rename directory source target) := by
  rw [Tree.rename, Tree.rename, h.locate_eq]
  rcases h.find_cases directory source with ⟨fault, hs, ht⟩ | ⟨l, a, b, hl, hs, ht, node⟩
  · rw [hs, ht]
    exact .error fault
  · rw [hs, ht]
    cases hg : s.locate directory target with
    | error fault => exact .error fault
    | ok goal =>
      simp only [bind, Except.bind, h.isDirectory_eq]
      split_ifs
      · exact .error .isDirectory
      · refine .ok ((h.remove l).put ?_)
        cases node with
        | same => exact .same a
        | hidden here number mode hr => exact .hidden (stays l goal hl hg here) number mode hr

theorem unlink (h : Tree.Twin hidden R s t) (directory : Location) (path : Path) :
    TwinResult hidden R (s.unlink directory path) (t.unlink directory path) := by
  rw [Tree.unlink, Tree.unlink]
  rcases h.find_cases directory path with ⟨fault, hs, ht⟩ | ⟨l, a, b, -, hs, ht, node⟩
  · rw [hs, ht]
    exact .error fault
  · rw [hs, ht]
    cases node with
    | hidden here number mode hr => exact .ok (h.remove l)
    | same =>
      cases a with
      | file number mode content => exact .ok (h.remove l)
      | directory mode => exact .error .isDirectory

end Tree.Twin

end SessionKeeper
