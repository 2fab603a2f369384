import SessionKeeper.Proofs.Disk.Twin
import SessionKeeper.Proofs.Keeper.Agreement
import SessionKeeper.Proofs.Script.Asks
import SessionKeeper.Proofs.Secret.Twin

/-!
# Requests that are blind to secrets

Two machines are twins when they differ in secrets only: in the contents of hidden files, in the
keychain and in what the keyserver tells. A request is blind when twins answer it alike and are
twins again. All requests are, but for those that name the vault's file to read or move it, that
ask the keychain for a secret or the keyserver for a passphrase; so an operation that makes no
such request cannot tell twins apart.
-/
namespace SessionKeeper

open Secret (SameEmptiness TwinContents)

variable [Runtime]

/-- That two machines differ in hidden contents and in secrets at most, which look the same. -/
inductive Machine.Twin (hidden : Location → Prop) (m : Machine) : Machine → Prop where
  | intro {tree : Tree} {keychain : Keychain}
    {keyserver : Nat → Keyserver.Request → Keyserver.Outcome} (numbered : m.tree.Numbered)
    (trees : Tree.Twin hidden TwinContents m.tree tree)
    (keychains : Assoc.Parallel SameEmptiness m.keychain keychain)
    (keyservers : ∀ count request, Keyserver.Outcome.Matches SameEmptiness
      (m.keyserver count request) (keyserver count request)) :
    Twin hidden m { m with tree, keychain, keyserver }

/-- That a path names something other than a vault's file. -/
def Path.IsPlain (path : Path) : Prop :=
  ∃ (front : Path) (name : String), path = front.child name ∧ name ≠ ".." ∧
    name ≠ Secret.Vault.fileName

/-- That twins answer a request alike. -/
def Request.IsBlind : Request → Prop
  | .readFile path => path.IsPlain
  | .rename source _ => source.IsPlain
  | .keychainGet .. => False
  | .post _ => False
  | _ => True

/-- That only files with the name of a vault's file are hidden. -/
def IsTucked (hidden : Location → Prop) : Prop :=
  ∀ l, hidden l → l.getLast? = some Secret.Vault.fileName

namespace Tree

omit [Runtime] in
theorem getLast?_of_locate {tree : Tree} {directory l : Location} {front : Path} {name : String}
    (down : name ≠ "..") (h : tree.locate directory (front.child name) = .ok l) :
    l.getLast? = some name := by
  have parts : (front.child name).parts = front.parts ++ [name] := rfl
  rw [locate, parts, walk_append] at h
  obtain ⟨place, -, rest⟩ := exists_of_bind_ok h
  rw [walk] at rest
  split at rest
  · cases rest
  · cases rest
  · rw [if_neg down] at rest
    split_ifs at rest
    obtain rfl := Except.ok.inj rest
    exact List.getLast?_concat

omit [Runtime] in
theorem not_hidden_of_plain {hidden : Location → Prop} (tucked : IsTucked hidden) {path : Path}
    (plain : path.IsPlain) {tree : Tree} {directory l : Location}
    (h : tree.locate directory path = .ok l) : ¬ hidden l := by
  obtain ⟨front, name, rfl, down, other⟩ := plain
  intro here
  have last := tucked l here
  rw [getLast?_of_locate down h] at last
  exact other (Option.some.inj last)

end Tree

namespace Machine.Twin

variable {hidden more : Location → Prop} {m n : Machine}

theorem mono (h : Twin hidden m n) (wider : ∀ l, hidden l → more l) : Twin more m n := by
  cases h with
  | intro numbered trees keychains keyservers =>
    exact .intro numbered (trees.mono wider) keychains keyservers

/-- A location where nothing stands need not be hidden. -/
theorem narrow (h : Twin more m n) (gone : ∀ l, more l → hidden l ∨ m.tree.node? l = none) :
    Twin hidden m n := by
  cases h with
  | intro numbered trees keychains keyservers =>
    exact .intro numbered (trees.narrow gone) keychains keyservers

theorem trees (h : Twin hidden m n) : Tree.Twin hidden TwinContents m.tree n.tree := by
  cases h with
  | intro numbered trees keychains keyservers => exact trees

theorem numbered (h : Twin hidden m n) : m.tree.Numbered := by
  cases h with
  | intro numbered trees keychains keyservers => exact numbered

theorem directory_eq (h : Twin hidden m n) : n.directory = m.directory := by
  cases h
  rfl

theorem transcript_eq (h : Twin hidden m n) : n.transcript = m.transcript := by
  cases h
  rfl

/-- The same first free name is found for a temporary file. -/
theorem freeTemporary_eq (h : Twin hidden m n) (directory : Path) (stem : String)
    (tries number : Nat) :
    n.freeTemporary directory stem tries number = m.freeTemporary directory stem tries number := by
  induction tries generalizing number with
  | zero => rfl
  | succ tries ih =>
    rw [freeTemporary, freeTemporary, h.directory_eq]
    rcases h.trees.find_cases m.directory (directory.child (temporaryName stem number)) with
      ⟨fault, hm, hn⟩ | ⟨l, a, b, -, hm, hn, -⟩
    · rw [hm, hn]
    · rw [hm, hn]
      exact ih (number + 1)

theorem entries_eq (h : Twin hidden m n) : n.tree.nodes.length = m.tree.nodes.length := by
  have keys := congrArg List.length h.trees.keys
  rwa [Assoc.keys, Assoc.keys, List.length_map, List.length_map] at keys

theorem retree (h : Twin hidden m n) {s t : Tree} (numbered : s.Numbered)
    (trees : Tree.Twin more TwinContents s t) :
    Twin more { m with tree := s } { n with tree := t } := by
  cases h with
  | intro _ _ keychains keyservers => exact .intro numbered trees keychains keyservers

/-- A change of both trees is refused by both machines or leaves twins. -/
theorem edit (h : Twin hidden m n) {x y : Except FileFault Tree}
    (numbered : ∀ s, x = .ok s → s.Numbered) (result : Tree.TwinResult hidden TwinContents x y) :
    (n.edit y).1 = (m.edit x).1 ∧ Twin hidden (m.edit x).2 (n.edit y).2 := by
  cases result with
  | ok trees => exact ⟨rfl, h.retree (numbered _ rfl) trees⟩
  | error fault => exact ⟨rfl, h⟩

/-- A file is created by both machines under the same number, or by neither. -/
theorem create (h : Twin hidden m n) (path : Path) (mode : Nat) :
    (n.create path mode).1 = (m.create path mode).1 ∧
      Twin hidden (m.create path mode).2 (n.create path mode).2 := by
  have numbered := m.create_numbered path mode h.numbered
  rw [Machine.create] at numbered
  rw [Machine.create, Machine.create]
  rcases h.trees.createFile_cases m.directory path mode with
    ⟨fault, hm, hn⟩ | ⟨number, s, t, hm, hn, trees⟩
  · rw [h.directory_eq, hm, hn]
    exact ⟨rfl, h⟩
  · rw [← h.directory_eq] at hn
    rw [hm] at numbered
    rw [hm, hn]
    exact ⟨rfl, h.retree (s := s) (t := t) numbered trees⟩

theorem nextLine (h : Twin hidden m n) : n.nextLine.1 = m.nextLine.1 ∧
    Twin hidden m.nextLine.2 n.nextLine.2 := by
  cases h with
  | intro numbered trees keychains keyservers =>
    rcases m with ⟨_, _, _, _, _, _, _, _, _, _, _ | ⟨line, rest⟩, _⟩
    · exact ⟨rfl, .intro numbered trees keychains keyservers⟩
    · exact ⟨rfl, .intro numbered trees keychains keyservers⟩

theorem tell (h : Twin hidden m n) (output : Output) : Twin hidden (m.tell output) (n.tell output) := by
  cases h with
  | intro numbered trees keychains keyservers =>
    exact .intro (m := m.tell output) numbered trees keychains keyservers

theorem setMode (h : Twin hidden m n) (path : Path) (mode : Nat) :
    (n.answer (.setMode path mode)).1 = (m.answer (.setMode path mode)).1 ∧
      Twin hidden (m.answer (.setMode path mode)).2 (n.answer (.setMode path mode)).2 := by
  rw [Machine.answer, Machine.answer, h.directory_eq]
  exact h.edit (fun _ hs => h.numbered.setMode path mode _ hs)
    (h.trees.setMode m.directory path mode)

theorem unlink (h : Twin hidden m n) (path : Path) :
    (n.answer (.unlink path)).1 = (m.answer (.unlink path)).1 ∧
      Twin hidden (m.answer (.unlink path)).2 (n.answer (.unlink path)).2 := by
  rw [Machine.answer, Machine.answer, h.directory_eq]
  exact h.edit (fun _ hs => h.numbered.unlink path _ hs) (h.trees.unlink m.directory path)

/-- A file is moved by both machines or by neither; a hidden one has to stay hidden. -/
theorem rename (h : Twin hidden m n) (source target : Path)
    (stays : ∀ l goal, m.tree.locate m.directory source = .ok l →
      m.tree.locate m.directory target = .ok goal → hidden l → hidden goal) :
    (n.answer (.rename source target)).1 = (m.answer (.rename source target)).1 ∧
      Twin hidden (m.answer (.rename source target)).2 (n.answer (.rename source target)).2 := by
  rw [Machine.answer, Machine.answer, h.directory_eq]
  exact h.edit (fun _ hs => h.numbered.rename source target _ hs)
    (h.trees.rename m.directory source target stays)

/-- A file that is read shows the difference between twins only if it is hidden. -/
theorem readFile (tucked : IsTucked hidden) (h : Twin hidden m n) {path : Path}
    (blind : (Request.readFile path).IsBlind) :
    (n.answer (.readFile path)).1 = (m.answer (.readFile path)).1 := by
  show n.tree.read n.directory path = m.tree.read m.directory path
  rw [h.directory_eq]
  rcases h.trees.read_cases m.directory path with equal | ⟨l, c, d, hl, here, -⟩
  · exact equal
  · exact absurd here (Tree.not_hidden_of_plain tucked blind hl)

theorem createTemporary (h : Twin hidden m n) (directory : Path) (stem : String) :
    (n.answer (.createTemporary directory stem)).1 =
        (m.answer (.createTemporary directory stem)).1 ∧
      Twin hidden (m.answer (.createTemporary directory stem)).2
        (n.answer (.createTemporary directory stem)).2 := by
  have made := h.create (m.freeTemporary directory stem m.tree.nodes.length 0) 0o600
  rw [Machine.answer, Machine.answer, h.entries_eq, h.freeTemporary_eq]
  generalize m.create (m.freeTemporary directory stem m.tree.nodes.length 0) 0o600 = x at made ⊢
  generalize n.create (m.freeTemporary directory stem m.tree.nodes.length 0) 0o600 = y at made ⊢
  obtain ⟨_, _⟩ := x
  obtain ⟨result, _⟩ := y
  obtain ⟨rfl, twins⟩ := made
  cases result with
  | ok number => exact ⟨rfl, twins⟩
  | error fault => exact ⟨rfl, twins⟩

/-- A secret is in both keychains or in neither. -/
theorem keychainDelete (h : Twin hidden m n) (service account : Text) :
    (n.answer (.keychainDelete service account)).1 =
        (m.answer (.keychainDelete service account)).1 ∧
      Twin hidden (m.answer (.keychainDelete service account)).2
        (n.answer (.keychainDelete service account)).2 := by
  cases h with
  | intro numbered trees keychains keyservers =>
    refine ⟨?_, .intro numbered trees (keychains.remove (service, account)) keyservers⟩
    rw [Machine.answer, Machine.answer]
    dsimp only
    rw [Assoc.Parallel.has_eq keychains]

theorem readSecret (h : Twin hidden m n) (text : String) :
    (n.answer (.readSecret text)).1 = (m.answer (.readSecret text)).1 ∧
      Twin hidden (m.answer (.readSecret text)).2 (n.answer (.readSecret text)).2 := by
  obtain ⟨same, twins⟩ := h.nextLine
  rw [Machine.answer, Machine.answer]
  generalize m.nextLine = x at same twins ⊢
  generalize n.nextLine = y at same twins ⊢
  obtain ⟨_, _⟩ := x
  obtain ⟨line, _⟩ := y
  obtain rfl := same
  cases line with
  | none => exact ⟨rfl, twins⟩
  | some line => exact ⟨rfl, twins.tell _⟩

theorem answer (tucked : IsTucked hidden) (h : Twin hidden m n) {request : Request}
    (blind : request.IsBlind) : (n.answer request).1 = (m.answer request).1 ∧
      Twin hidden (m.answer request).2 (n.answer request).2 := by
  have numbered := m.answer_numbered request h.numbered
  cases request with
  | readFile path => exact ⟨h.readFile tucked blind, h⟩
  | probe path => exact ⟨by rw [Machine.answer, Machine.answer, h.directory_eq, h.trees.kind_eq], h⟩
  | listDirectory path =>
    exact ⟨by rw [Machine.answer, Machine.answer, h.directory_eq, h.trees.list_eq], h⟩
  | makeDirectory path mode =>
    rw [Machine.answer, Machine.answer, h.directory_eq]
    exact h.edit (fun _ hs => h.numbered.makeDirectory path mode _ hs)
      (h.trees.makeDirectory m.directory path mode)
  | createFile path mode => exact h.create path mode
  | createTemporary directory stem => exact h.createTemporary directory stem
  | writeFile number content => exact ⟨rfl, h.retree numbered (h.trees.writeFile (.inl rfl))⟩
  | setMode path mode => exact h.setMode path mode
  | rename source target =>
    exact h.rename source target fun _ _ hl _ here =>
      absurd here (Tree.not_hidden_of_plain tucked blind hl)
  | unlink path => exact h.unlink path
  | keychainGet => exact blind.elim
  | post => exact blind.elim
  | keychainSet service account secret =>
    cases h with
    | intro _ trees keychains keyservers =>
      exact ⟨rfl, .intro numbered trees (keychains.put (service, account) rfl) keyservers⟩
  | keychainDelete service account => exact h.keychainDelete service account
  | readLine => exact h.nextLine
  | readSecret text => exact h.readSecret text
  | emit output => exact ⟨rfl, h.tell output⟩
  | _ =>
    -- What the other requests ask for is the same for twins, and is left as it is.
    cases h with
    | intro _ trees keychains keyservers =>
      exact ⟨rfl, .intro numbered trees keychains keyservers⟩

end Machine.Twin

end SessionKeeper
