import SessionKeeper.Proofs.Keeper.Choice
import SessionKeeper.Proofs.Secret.Blind

/-!
# Working behind a veil

A veil tells which files are hidden between operations and which ones on the way: the vault's file,
and while it is replaced the temporary file beside it. What makes blind requests agrees under the
likeness of machines that are twins up to a veil, so all that is done with record files and locks
under other names does. The vault and the keychain agree as well, with secrets that look the same:
the vault's new content differs, but it never stands in a file that is not veiled.
-/
namespace SessionKeeper

open Secret (SameEmptiness TwinContents TwinEntries TwinReplacement)
open SessionKeeper.Action (Agrees)

/-- What is hidden between operations, and what is on the way. -/
structure Veil where
  hidden : Location → Prop
  along : Location → Prop
  wider : ∀ l, hidden l → along l
  tucked : IsTucked hidden

variable [Runtime]

/-- That two machines stand in a directory and are twins up to what is hidden. -/
structure Machine.Veiled (directory : Location) (hidden : Location → Prop) (m n : Machine) : Prop where
  directory : m.directory = directory
  twins : Machine.Twin hidden m n

/-- The likeness of machines in a directory that are twins up to a veil. -/
def Likeness.veiled (directory : Location) (veil : Veil) : Likeness where
  holds := Machine.Veiled directory veil.hidden
  along := List.Forall₂ (Machine.Twin veil.along)
  along_nil := .nil
  along_append h h' := List.rel_append h h'

omit [Runtime] in
/-- What makes requests of a kind agrees with itself when such requests are answered alike. -/
theorem Action.Agrees.of_asks {L : Likeness} {P : Request → Prop}
    (answers : ∀ m n, L.holds m n → ∀ request, P request →
      (n.answer request).1 = (m.answer request).1 ∧
        L.holds (m.answer request).2 (n.answer request).2 ∧
        L.along [(m.answer request).2] [(n.answer request).2])
    {α : Type} {action : Action α} (h : action.Asks P) : Agrees L Eq action action := by
  have script {β : Type} {script : Script β} (h : script.Asks P) :
      Script.Pairs L L.holds script script fun a b m n => a = b ∧ L.holds m n := by
    induction script with
    | done a => exact .done fun m n alike => ⟨rfl, alike⟩
    | ask request next ih =>
      intro m n alike
      obtain ⟨same, after, passed⟩ := answers m n alike request h.1
      have rest := ih (m.answer request).1 (h.2 _) _ _ after
      refine ⟨?_, ?_⟩
      · rw [Script.run_ask, Script.run_ask, same]
        exact rest.1
      · show L.along ([(m.answer request).2] ++ (next (m.answer request).1).trail _)
          ([(n.answer request).2] ++ (next (n.answer request).1).trail _)
        rw [same]
        exact L.along_append passed rest.2
  refine (script h).mono fun x y m n ended => ?_
  obtain ⟨rfl, alike⟩ := ended
  cases x with
  | ok a => exact .ok ⟨rfl, alike⟩
  | error failure => exact .error failure alike

section Veiled

variable {directory : Location} {veil : Veil} {α : Type}

theorem Machine.Veiled.answer {m n : Machine} (veil : Veil)
    (alike : m.Veiled directory veil.hidden n) (request : Request) (blind : request.IsBlind) :
    (n.answer request).1 = (m.answer request).1 ∧
      (m.answer request).2.Veiled directory veil.hidden (n.answer request).2 ∧
      List.Forall₂ (Machine.Twin veil.along) [(m.answer request).2] [(n.answer request).2] := by
  obtain ⟨same, twins⟩ := alike.twins.answer veil.tucked blind
  exact ⟨same, ⟨(m.answer_fixed request).directory.trans alike.directory, twins⟩,
    .cons (twins.mono veil.wider) .nil⟩

/-- What makes blind requests only cannot tell twins apart. -/
theorem Action.Agrees.of_blind {action : Action α} (h : action.Asks Request.IsBlind) :
    Agrees (.veiled directory veil) Eq action action :=
  .of_asks (fun m n (alike : m.Veiled directory veil.hidden n) request blind =>
    alike.answer veil request blind) h

theorem Action.log_veiled (level : Level) (channel : Channel) (message : String) :
    Agrees (.veiled directory veil) Eq (Action.log level channel message)
      (Action.log level channel message) := .of_blind (.ask trivial)

omit [Runtime] in
/-- Making sure of a folder does not touch files. -/
theorem Folder.ensure_blind (folder : Path) : (Folder.ensure folder).Asks Request.IsBlind := by
  have accepts (path : Path) (fault : FileFault) :
      (Folder.accept path fault).Asks Request.IsBlind := by
    refine .bind (.bind (.ask trivial) fun answer => ?_) fun there => ?_
    · split
      · exact .pure _
      · exact .pure _
      · exact .pure _
      · exact .throw _
    · split
      · exact .pure _
      · exact .throw _
  have makes (height : Nat) (path : Path) (mode : Nat) :
      (Folder.makeWithin height path mode).Asks Request.IsBlind := by
    induction height generalizing path mode with
    | zero =>
      unfold Folder.makeWithin
      refine .bind (.ask trivial) fun answer => ?_
      split
      · exact .pure _
      · exact .throw _
      · exact accepts _ _
    | succ height ih =>
      unfold Folder.makeWithin
      refine .bind (.ask trivial) fun answer => ?_
      split
      · exact .pure _
      · refine (ih _ _).bind fun _ => .bind (.ask trivial) fun answer => ?_
        split
        · exact .pure _
        · exact .throw _
        · exact accepts _ _
      · exact accepts _ _
  exact makes _ _ _

omit [Runtime] in
theorem Record.discard_blind (temporary : Path) (fault : FileFault) :
    (Record.discard temporary fault : Action α).Asks Request.IsBlind :=
  .bind (.ask trivial) fun _ => .throw _

/-- The name of a file other than the vault's. -/
def IsOpenName (name : String) : Prop := name ≠ ".." ∧ name ≠ Secret.Vault.fileName

omit [Runtime] in
theorem IsOpenName.plain {name : String} (h : IsOpenName name) (folder : Path) :
    (folder.child name).IsPlain := ⟨folder, name, rfl, h⟩

omit [Runtime] in
/-- A temporary file never has the name of a vault's file. -/
theorem isOpenName_temporary (stem : String) (number : Nat) :
    IsOpenName (Machine.temporaryName stem number) :=
  ⟨Record.temporaryName_ne_up stem number, Record.temporaryName_ne_vault stem number⟩

omit [Runtime] in
theorem Machine.answer_createTemporary_ok {machine : Machine} {folder : Path} {stem : String}
    {made : Path × Nat} (h : (machine.answer (.createTemporary folder stem)).1 = .ok made) :
    ∃ k l, made.1 = folder.child (temporaryName stem k) ∧
      (machine.answer (.createTemporary folder stem)).2.tree.locate machine.directory made.1 =
        .ok l ∧ ∃ mode content, (machine.answer (.createTemporary folder stem)).2.tree.node? l =
          some (.file made.2 mode content) := by
  obtain ⟨k, hk, -⟩ := Record.exists_freeTemporary machine folder stem machine.tree.nodes.length 0
  rw [Machine.answer_createTemporary]
  rw [Machine.answer] at h
  rw [hk, Machine.create] at h ⊢
  cases created : machine.tree.createFile machine.directory (folder.child (temporaryName stem k))
      0o600 with
  | error fault =>
    rw [created] at h
    cases h
  | ok made =>
    rw [created] at h
    obtain rfl := Except.ok.inj h
    obtain ⟨l, leads, there⟩ := Tree.createFile_ok created
    exact ⟨k, l, rfl, leads, _, _, there⟩

theorem Record.replaceFile_veiled (folder : Path) (name : String) (content : Octets) :
    Agrees (.veiled directory veil) Eq (Record.replaceFile (folder.child name) content)
      (Record.replaceFile (folder.child name) content) := by
  have made : Action.Pairs (.veiled directory veil) (Machine.Veiled directory veil.hidden)
      (Action.ask (.createTemporary folder name)) (Action.ask (.createTemporary folder name))
      fun r s m n => r = s ∧ m.Veiled directory veil.hidden n ∧
        ∀ made, r = .ok made → made.1.IsPlain := by
    refine .ask fun m n alike => ?_
    obtain ⟨same, after, passed⟩ := alike.answer veil (.createTemporary folder name) trivial
    refine ⟨⟨same.symm, after, fun made hm => ?_⟩, passed⟩
    obtain ⟨k, -, hk, -⟩ := Machine.answer_createTemporary_ok hm
    rw [hk]
    exact (isOpenName_temporary _ k).plain _
  unfold Record.replaceFile
  rw [Path.parent_child, Path.name_child]
  refine made.bind fun r s => ?_
  rintro m n ⟨rfl, alike, plain⟩
  cases r with
  | error fault => exact Agrees.throw _ m n alike
  | ok made =>
    obtain ⟨temporary, number⟩ := made
    have made : Action.ofFile (.ok (temporary, number)) = pure (temporary, number) := rfl
    rw [made, pure_bind]
    refine Agrees.of_blind ?_ m n alike
    refine .bind (.ask trivial) fun _ => .bind (.ask trivial) fun answer => ?_
    split
    · exact Record.discard_blind _ _
    · refine .bind (.ask (plain _ rfl)) fun answer => ?_
      split
      · exact Record.discard_blind _ _
      · exact .pure _

/-- All files in a folder but the vault's look the same. -/
theorem Likeness.veiled_spans (folder : Path) : (Likeness.veiled directory veil).Spans folder
    IsOpenName fun j k m n => k = j ∧ m.Veiled directory veil.hidden n where
  clock := .of_blind (.ask trivial)
  emit _ := .of_blind (.ask trivial)
  ensure := .of_blind (Folder.ensure_blind folder)
  readFile hn := .of_blind (.ask (hn.plain folder))
  probe _ := .of_blind (.ask trivial)
  unlink _ := .of_blind (.ask trivial)
  createFile {name} _ mode := by
    refine .ask fun m n alike => ?_
    obtain ⟨same, after, passed⟩ :=
      Machine.Veiled.answer veil alike (.createFile (folder.child name) mode) trivial
    refine ⟨?_, passed⟩
    rw [same]
    generalize (m.answer (.createFile (folder.child name) mode)).1 = made
    cases made with
    | ok number => exact .ok ⟨rfl, after⟩
    | error fault => exact .error fault after
  writeFile j k content := by
    refine .ask fun m n h => ?_
    obtain ⟨rfl, alike⟩ := h
    exact (alike.answer veil (.writeFile k content) trivial).2
  forget h := h.2
  replaceFile {name} _ content := Record.replaceFile_veiled folder name content

end Veiled

end SessionKeeper
