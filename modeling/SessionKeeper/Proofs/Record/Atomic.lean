import SessionKeeper.Proofs.Lock.Shape
import SessionKeeper.Proofs.Record.Room
import SessionKeeper.Proofs.Script.Asks

/-!
# What is done in one step

A record file is replaced through a temporary file beside it, and so whoever looks at a moment in
between sees the old file or the new one. An operation is atomic when every machine that it passes
through differs from the one before or from the one after in temporary files only, and it is still
when it differs from the one before in files of some names only. What is still may come before or
after something atomic, and the sequence is atomic again.
-/
namespace SessionKeeper

/-- That two machines have the same files but for some names in a folder, and the same keychain
and time. -/
structure Machine.DiffersIn (place : Location) (names : String → Prop) (one other : Machine) :
    Prop where
  elsewhere : ∀ l, (∀ name, names name → l ≠ place ++ [name]) →
    other.tree.node? l = one.tree.node? l
  keychain : other.keychain = one.keychain
  now : other.now = one.now

namespace Machine.DiffersIn

variable {place : Location} {names more : String → Prop} {a b c : Machine}

theorem refl (machine : Machine) : machine.DiffersIn place names machine :=
  ⟨fun _ _ => rfl, rfl, rfl⟩

theorem symm (h : a.DiffersIn place names b) : b.DiffersIn place names a :=
  ⟨fun l hl => (h.elsewhere l hl).symm, h.keychain.symm, h.now.symm⟩

theorem trans (h : a.DiffersIn place names b) (k : b.DiffersIn place names c) :
    a.DiffersIn place names c :=
  ⟨fun l hl => (k.elsewhere l hl).trans (h.elsewhere l hl), k.keychain.trans h.keychain,
    k.now.trans h.now⟩

theorem mono (h : a.DiffersIn place names b) (hn : ∀ name, names name → more name) :
    a.DiffersIn place more b :=
  ⟨fun l hl => h.elsewhere l fun name hname => hl name (hn name hname), h.keychain, h.now⟩

/-- A name that is not among those that differ stands for the same. -/
theorem under (h : a.DiffersIn place names b) {name : String} (hn : ¬ names name) :
    b.under place name = a.under place name := by
  refine h.elsewhere _ fun other ho heq => ?_
  have hname : name = other := by simpa using List.append_cancel_left heq
  exact hn (hname ▸ ho)

theorem of_changedOnly (only : ChangedOnly place names a b) (keychain : b.keychain = a.keychain)
    (fixed : a.SameCircumstances b) : a.DiffersIn place names b :=
  ⟨only.elsewhere, keychain, fixed.now⟩

theorem of_tree (tree : b.tree = a.tree) (keychain : b.keychain = a.keychain)
    (now : b.now = a.now) : a.DiffersIn place names b :=
  ⟨fun _ _ => by rw [tree], keychain, now⟩

end Machine.DiffersIn

/-- Whether a name is that of a temporary file for a file of the given name. -/
def IsTemporaryOf (stem name : String) : Prop := ∃ k, name = Machine.temporaryName stem k

def IsTemporary (name : String) : Prop := ∃ stem, IsTemporaryOf stem name

namespace Action

variable {α β : Type}

/-- That all machines that an operation passes through differ from the one it started on in files
of some names only. -/
def IsStill (folder : Path) (place : Location) (names : String → Prop) (action : Action α) : Prop :=
  ∀ machine, Ground machine folder place → action.Passes machine fun m =>
    Ground m folder place ∧ machine.DiffersIn place names m

/-- That all machines that an operation passes through differ from the one it started on, or from
the one it leaves, in temporary files only. -/
def IsAtomic (folder : Path) (place : Location) (action : Action α) : Prop :=
  ∀ machine, Ground machine folder place → action.Passes machine fun m =>
    Ground m folder place ∧ (machine.DiffersIn place IsTemporary m ∨
      (action.exec machine).2.DiffersIn place IsTemporary m)

variable {folder : Path} {place : Location} {names more : String → Prop} {machine : Machine}

namespace IsStill

theorem pure (a : α) : (Pure.pure a : Action α).IsStill folder place names := fun _ _ => .pure a

theorem throw (failure : Failure) :
    (MonadExcept.throw failure : Action α).IsStill folder place names := fun _ _ => .throw failure

theorem mono {x : Action α} (h : x.IsStill folder place names)
    (hn : ∀ name, names name → more name) : x.IsStill folder place more :=
  fun machine g => (h machine g).mono fun _ hm => ⟨hm.1, hm.2.mono hn⟩

theorem exec {x : Action α} (h : x.IsStill folder place names) (g : Ground machine folder place) :
    Ground (x.exec machine).2 folder place ∧ machine.DiffersIn place names (x.exec machine).2 :=
  (h machine g).exec ⟨g, .refl machine⟩

theorem bind {x : Action α} {f : α → Action β} (hx : x.IsStill folder place names)
    (hf : ∀ a, (f a).IsStill folder place names) : (x >>= f).IsStill folder place names := by
  intro machine g
  refine .bind (hx machine g) fun a between he => ?_
  obtain ⟨gb, differs⟩ := hx.exec g
  rw [he] at gb differs
  exact (hf a between gb).mono fun m hm => ⟨hm.1, differs.trans hm.2⟩

/-- A single request, with what it leaves. -/
theorem ask {request : Request} (h : ∀ machine, Ground machine folder place →
    ChangedOnly place names machine (machine.answer request).2 ∧
      (machine.answer request).2.keychain = machine.keychain) :
    (Action.ask request).IsStill folder place names := by
  intro machine g
  obtain ⟨only, keychain⟩ := h machine g
  exact .ask ⟨g.answer (Prod.ext rfl rfl) only,
    .of_changedOnly only keychain (machine.answer_fixed request)⟩

/-- A request that leaves the files and the keychain alone. -/
theorem ask_tree {request : Request} (h : ∀ machine : Machine,
    (machine.answer request).2.tree = machine.tree ∧
      (machine.answer request).2.keychain = machine.keychain) :
    (Action.ask request).IsStill folder place names :=
  ask fun machine _ => ⟨.of_tree (h machine).1, (h machine).2⟩

theorem log (level : Level) (channel : Channel) (message : String) :
    (Action.log level channel message).IsStill folder place names := ask_tree fun _ => ⟨rfl, rfl⟩

theorem now : Action.now.IsStill folder place names := ask_tree fun _ => ⟨rfl, rfl⟩

/-- A request that leaves the files and the keychain alone, before a script that is still. -/
theorem passes_ask {request : Request} {next : request.Answer → Script (Except Failure α)}
    (g : Ground machine folder place) (tree : (machine.answer request).2.tree = machine.tree)
    (keychain : (machine.answer request).2.keychain = machine.keychain)
    (rest : Ground (machine.answer request).2 folder place →
      (next (machine.answer request).1).Passes (machine.answer request).2 fun m =>
        Ground m folder place ∧ (machine.answer request).2.DiffersIn place names m) :
    (Script.ask request next).Passes machine fun m =>
      Ground m folder place ∧ machine.DiffersIn place names m := by
  have same : ChangedOnly place names machine (machine.answer request).2 := .of_tree tree
  have ga : Ground (machine.answer request).2 folder place := g.answer (Prod.ext rfl rfl) same
  have differs : machine.DiffersIn place names (machine.answer request).2 :=
    .of_tree tree keychain (machine.answer_fixed request).now
  exact .ask ⟨ga, differs⟩ fun m hm => ⟨(rest ga m hm).1, differs.trans (rest ga m hm).2⟩

/-- What only looks at files changes nothing. -/
theorem of_looks {x : Action α} (h : x.Looks folder place) : x.IsStill folder place names := by
  intro machine g
  have keychain {request : Request} (look : request.isLook folder = true) (machine : Machine) :
      (machine.answer request).2.keychain = machine.keychain := by
    cases request with
    | makeDirectory path mode =>
      show (machine.edit _).2.keychain = _
      cases machine.tree.makeDirectory machine.directory path mode <;> rfl
    | readFile path => rfl
    | probe path => rfl
    | clock => rfl
    | emit output => rfl
    | _ => simp [Request.isLook] at look
  suffices still : ∀ {script : Script (Except Failure α)}, script.Looks folder place →
      ∀ before, Ground before folder place → script.Passes before fun m =>
        Ground m folder place ∧ before.DiffersIn place names m from still h machine g
  intro script looks
  induction looks with
  | done a => exact fun _ _ => .done a
  | ask request next look rest ih =>
    intro before g
    exact passes_ask g (Request.tree_of_isLook look g) (keychain look before) (ih before g _)

/-- What makes only requests that change nothing is still. -/
theorem of_asks {x : Action α} (h : x.Asks fun request => ∀ machine : Machine,
    (machine.answer request).2.tree = machine.tree ∧
      (machine.answer request).2.keychain = machine.keychain) : x.IsStill folder place names := by
  intro machine g
  suffices still : ∀ {script : Script (Except Failure α)}, script.Asks _ →
      ∀ before, Ground before folder place → script.Passes before fun m =>
        Ground m folder place ∧ before.DiffersIn place names m from still h machine g
  intro script asks
  induction script with
  | done a => exact fun _ _ => .done a
  | ask request next ih =>
    intro before g
    exact passes_ask g (asks.1 before).1 (asks.1 before).2 (ih _ (asks.2 _) _)

theorem isAtomic {x : Action α} (h : x.IsStill folder place IsTemporary) :
    x.IsAtomic folder place :=
  fun machine g => (h machine g).mono fun _ hm => ⟨hm.1, .inl hm.2⟩

theorem bind_isAtomic {x : Action α} {f : α → Action β} (hx : x.IsStill folder place IsTemporary)
    (hf : ∀ a, (f a).IsAtomic folder place) : (x >>= f).IsAtomic folder place := by
  intro machine g
  rcases he : x.exec machine with ⟨failure | a, between⟩
  · exact .bind ((hx machine g).mono fun _ hm => ⟨hm.1, .inl hm.2⟩)
      fun _ _ hr => by rw [he] at hr; cases hr
  · obtain ⟨gb, differs⟩ := hx.exec g
    rw [he] at gb differs
    rw [exec_bind_ok he]
    refine .bind ((hx machine g).mono fun _ hm => ⟨hm.1, .inl hm.2⟩) fun _ _ hr => ?_
    rw [he] at hr
    cases hr
    exact (hf a between gb).mono fun m hm => ⟨hm.1, hm.2.imp_left differs.trans⟩

end IsStill

namespace IsAtomic

theorem ask {request : Request} (h : ∀ machine, Ground machine folder place →
    Ground (machine.answer request).2 folder place) :
    (Action.ask request).IsAtomic folder place :=
  fun machine g => .ask ⟨h machine g, .inr (.refl _)⟩

theorem ground {x : Action α} (h : x.IsAtomic folder place) (g : Ground machine folder place) :
    Ground (x.exec machine).2 folder place :=
  ((h machine g).exec ⟨g, .inl (.refl machine)⟩).1

theorem bind_isStill {x : Action α} {f : α → Action β} (hx : x.IsAtomic folder place)
    (hf : ∀ a, (f a).IsStill folder place IsTemporary) : (x >>= f).IsAtomic folder place := by
  intro machine g
  have gb := hx.ground g
  have passes := hx machine g
  rcases he : x.exec machine with ⟨failure | a, between⟩ <;> rw [he] at gb passes
  · rw [exec_bind_error he]
    exact .bind passes fun _ _ hr => by rw [he] at hr; cases hr
  · obtain ⟨-, differs⟩ := (hf a).exec gb
    rw [exec_bind_ok he]
    refine .bind (passes.mono fun m hm => ⟨hm.1, hm.2.imp_right differs.symm.trans⟩)
      fun _ _ hr => ?_
    rw [he] at hr
    cases hr
    exact (hf a between gb).mono fun m hm => ⟨hm.1, .inr (differs.symm.trans hm.2)⟩

/-- Something atomic that touches files of some names only is still but for these and temporary
files. -/
theorem isStill {x : Action α} (h : x.IsAtomic folder place)
    (confined : x.Confined folder place more) (hm : ∀ name, more name → names name)
    (ht : ∀ name, IsTemporary name → names name)
    (keychain : ∀ machine, Ground machine folder place →
      (x.exec machine).2.keychain = machine.keychain) : x.IsStill folder place names := by
  intro machine g
  have ended : machine.DiffersIn place names (x.exec machine).2 :=
    .mono (.of_changedOnly (confined machine g) (keychain machine g) (.of_exec x machine)) hm
  refine (h machine g).mono fun m ⟨gm, differs⟩ => ⟨gm, ?_⟩
  rcases differs with differs | differs
  · exact differs.mono ht
  · exact ended.trans (differs.mono ht)

end IsAtomic

end Action

namespace Record

variable {folder : Path} {place : Location} {name : String}

theorem unlink_isAtomic (hn : Tree.IsFileName name) :
    (Action.ask (.unlink (folder.child name))).IsAtomic folder place :=
  .ask fun machine g => g.answer (Prod.ext rfl rfl) (Ground.unlink_confined hn machine g)

theorem removeFile_isAtomic (hn : Tree.IsFileName name) :
    (removeFile (folder.child name)).IsAtomic folder place := by
  refine (unlink_isAtomic hn).bind_isStill fun result => ?_
  split
  · exact .pure _
  · exact .pure _
  · exact .throw _

/-- The end of replacing a file: the temporary file is moved over it. -/
def moveOver (temporary path : Path) : Action Unit := do
  match ← Action.ask (.rename temporary path) with
  | .error fault => discard temporary fault
  | .ok () => pure ()

theorem replaceFile_eq (path : Path) (content : Octets) : replaceFile path content = (do
    let (temporary, number) ← Action.ofFile (← Action.ask (.createTemporary path.parent path.name))
    Action.ask (.writeFile number content)
    match ← Action.ask (.setMode temporary privateMode) with
    | .error fault => discard temporary fault
    | .ok () => moveOver temporary path) := by
  rw [replaceFile]
  congr 1
  funext made
  congr 1
  funext opened
  rcases opened with ⟨temporary, number⟩
  dsimp only
  congr 1
  funext _
  congr 1
  funext allowed
  rcases allowed with fault | done
  · rfl
  · refine congrArg (Action.ask (.rename temporary path) >>= ·) (funext fun moved => ?_)
    rcases moved with fault | moved <;> rfl

/-- Moving a temporary file over a record file is one step, unless a directory is in the way; then
the temporary file is removed. -/
theorem moveOver_passes {machine : Machine} (g : Ground machine folder place)
    (hn : Tree.IsFileName name) {k : Nat} (ht : Tree.IsFileName (Machine.temporaryName name k))
    {number mode : Nat} {content : Octets}
    (hu : machine.under place (Machine.temporaryName name k) = some (.file number mode content)) :
    (moveOver (folder.child (Machine.temporaryName name k)) (folder.child name)).Passes machine
      fun m => Ground m folder place ∧ (machine.DiffersIn place (IsTemporaryOf name) m ∨
        ((moveOver (folder.child (Machine.temporaryName name k)) (folder.child name)).exec
          machine).2.DiffersIn place (IsTemporaryOf name) m) := by
  by_cases plain : ∀ mode, machine.under place name ≠ some (.directory mode)
  · have move := g.answer_rename ht hn hu plain
    have ended : (moveOver (folder.child (Machine.temporaryName name k)) (folder.child name)).exec
        machine = (.ok (), _) := (Action.exec_ask_bind move).trans rfl
    have gone : ChangedOnly place (· = Machine.temporaryName name k) machine
        (Ground.without machine place (Machine.temporaryName name k)) :=
      Ground.changedOnly_without _ (by simp [hu])
    have put : ChangedOnly place (· = name)
        (Ground.without machine place (Machine.temporaryName name k))
        (Ground.withNode (Ground.without machine place (Machine.temporaryName name k)) place name
          (.file number mode content)) := by
      refine Ground.changedOnly_of_node (fun other hm => ?_) (Ground.node?_withNode _ _ _)
      rw [Machine.under, Ground.node?_without] at hm
      split_ifs at hm
      exact plain other hm
    have only := (gone.mono fun _ => .inl).trans (put.mono fun _ => Or.inr)
    rw [ended]
    exact .ask_bind move ⟨g.answer move only, .inr (.refl _)⟩ (.pure _)
  · have taken : ∃ mode, machine.under place name = some (.directory mode) := by simpa using plain
    have stuck := g.answer_rename_directory ht hn hu taken
    have away := g.answer_unlink ht
    rw [hu] at away
    have only : ChangedOnly place (· = Machine.temporaryName name k) machine
        (Ground.without machine place (Machine.temporaryName name k)) :=
      Ground.changedOnly_without _ (by simp [hu])
    refine .ask_bind stuck ⟨g, .inl (.refl machine)⟩ (.ask_bind away ⟨g.answer away only, .inl ?_⟩
      (.throw _))
    exact ⟨fun l hl => only.elsewhere l fun other ho => hl other ⟨k, ho⟩, rfl, rfl⟩

/-- Replacing a file up to that end: its temporary file is made and filled beside it, or there is no
room for that and nothing is done at all. Whatever is passed on the way differs in the temporary file only. -/
theorem replaceFile_prepared {machine : Machine} (path : Path)
    (g : Ground machine path.parent place) (content : Octets) :
    (¬ HasRoom machine place path.name ∧
      (replaceFile path content).exec machine = (.error (.file .nameTooLong), machine) ∧
      ∀ J : Machine → Prop, J machine → (replaceFile path content).Passes machine J) ∨
    ∃ k number allowed, Tree.IsFileName (Machine.temporaryName path.name k) ∧
      Ground allowed path.parent place ∧
      allowed.under place (Machine.temporaryName path.name k) =
        some (.file number privateMode content) ∧
      machine.DiffersIn place (IsTemporaryOf path.name) allowed ∧
      (∀ l, l ≠ place ++ [Machine.temporaryName path.name k] →
        allowed.tree.node? l = machine.tree.node? l) ∧
      machine.under place (Machine.temporaryName path.name k) = none ∧
      (replaceFile path content).exec machine =
        (moveOver (path.parent.child (Machine.temporaryName path.name k)) path).exec allowed ∧
      ∀ J : Machine → Prop, (∀ m, Ground m path.parent place →
        machine.DiffersIn place (IsTemporaryOf path.name) m → J m) →
          (moveOver (path.parent.child (Machine.temporaryName path.name k)) path).Passes allowed J →
            (replaceFile path content).Passes machine J := by
  rw [replaceFile_eq]
  by_cases room : HasRoom machine place path.name
  swap
  · have hc := createTemporary_without_room g room
    exact .inl ⟨room, (Action.exec_ask_bind hc).trans rfl, fun J here =>
      .ask_bind hc here (.bind (.throw _) fun _ _ h => by cases h)⟩
  obtain ⟨k, ht, free, make⟩ := createTemporary_of_hasRoom g room
  obtain ⟨filled, allowed, fill, allow, gallowed, keys, nodes⟩ := exists_filled g ht free content
  have beside {m : Machine} {node : Option Node} (h : ∀ l, m.tree.node? l =
      if place ++ [Machine.temporaryName path.name k] = l then node else machine.tree.node? l)
      (keychain : m.keychain = machine.keychain) (now : m.now = machine.now) :
      machine.DiffersIn place (IsTemporaryOf path.name) m :=
    ⟨fun l hl => by rw [h, if_neg fun heq => hl _ ⟨k, rfl⟩ heq.symm], keychain, now⟩
  have gmade := g.answer make (Ground.changedOnly_withFile _ _ [] free)
  have made := beside (Ground.node?_withFile machine _ (Tree.masked 0o600) []) rfl rfl
  have filled_eq := (Prod.mk.inj fill).2
  have gfilled : Ground filled path.parent place := filled_eq ▸ gmade.kept_writeFile _ content
  have filled_beside : machine.DiffersIn place (IsTemporaryOf path.name) filled := filled_eq ▸
    beside (Ground.node?_filled g.numbered place _ (Tree.masked 0o600) content) rfl rfl
  have allowed_now : allowed.now = filled.now := by
    have fixed := (filled.answer_fixed
      (.setMode (path.parent.child (Machine.temporaryName path.name k)) privateMode)).now
    rwa [allow] at fixed
  have allowed_beside := beside nodes keys (allowed_now.trans filled_beside.now)
  have found : allowed.under place (Machine.temporaryName path.name k) =
      some (.file machine.tree.nextNumber privateMode content) := by
    rw [Machine.under, nodes, if_pos rfl]
  refine .inr ⟨k, _, allowed, ht, gallowed, found, allowed_beside, fun l apart => ?_, free, ?_,
    fun J between moved => ?_⟩
  · rw [nodes, if_neg (Ne.symm apart)]
  · refine (Action.exec_ask_bind make).trans ((Action.exec_bind_ok rfl).trans ?_)
    exact (Action.exec_ask_bind fill).trans (Action.exec_ask_bind allow)
  · refine .ask_bind make (between _ gmade made) (.bind (.pure _) fun _ _ he => ?_)
    cases he
    exact .ask_bind fill (between _ gfilled filled_beside)
      (.ask_bind allow (between _ gallowed allowed_beside) moved)

/-- Until the temporary file is moved over the record file, nothing but that file differs. -/
theorem replaceFile_passes {machine : Machine} (g : Ground machine folder place)
    (hn : Tree.IsFileName name) (content : Octets) :
    (replaceFile (folder.child name) content).Passes machine fun m => Ground m folder place ∧
      (machine.DiffersIn place (IsTemporaryOf name) m ∨
        ((replaceFile (folder.child name) content).exec machine).2.DiffersIn place
          (IsTemporaryOf name) m) := by
  have prepared := replaceFile_prepared (folder.child name)
    (by rwa [Path.parent_child]) content
  simp only [Path.parent_child, Path.name_child] at prepared
  obtain ⟨-, -, passes⟩ | ⟨k, number, allowed, ht, gallowed, found, beside, -, -, ended, passes⟩ :=
    prepared
  · exact passes _ ⟨g, .inl (.refl machine)⟩
  · rw [ended]
    refine passes _ (fun m gm differs => ⟨gm, .inl differs⟩) ?_
    exact (moveOver_passes gallowed hn ht found).mono fun m hm => ⟨hm.1, hm.2.imp_left beside.trans⟩

theorem replaceFile_isAtomic (hn : Tree.IsFileName name) (content : Octets) :
    (replaceFile (folder.child name) content).IsAtomic folder place := by
  intro machine g
  have wider (other : String) (h : IsTemporaryOf name other) : IsTemporary other := ⟨name, h⟩
  exact (replaceFile_passes g hn content).mono fun m hm =>
    ⟨hm.1, hm.2.imp (fun h => h.mono wider) fun h => h.mono wider⟩

variable [Runtime]

theorem write_isAtomic (hn : Tree.IsFileName name) (document : Json) :
    (write (folder.child name) document).IsAtomic folder place := by
  rw [write]
  split
  · exact (Action.IsStill.throw _).isAtomic
  · rw [Path.parent_child]
    exact (Action.IsStill.of_looks Folder.ensure_looks).bind_isAtomic fun _ =>
      replaceFile_isAtomic hn _

namespace Store

theorem entries_isStill (store : Store) {names : String → Prop} :
    store.entries.IsStill folder place names :=
  (Action.IsStill.of_looks (read_looks store.path)).bind fun _ => .pure _

theorem get?_isStill (store : Store) (key : Text) {names : String → Prop} :
    (store.get? key).IsStill folder place names := (entries_isStill store).bind fun _ => .pure _

/-- Making other entries those of a store is one step. -/
theorem replace_isAtomic (hn : Tree.IsFileName name) (entries : Assoc Text Json) :
    (Store.replace ⟨folder.child name⟩ entries).IsAtomic folder place := by
  rw [replace]
  split
  · refine (removeFile_isAtomic hn).bind_isStill fun removed => ?_
    split
    · exact .log _ _ _
    · exact .pure _
  · exact write_isAtomic hn _

theorem put_isAtomic (hn : Tree.IsFileName name) (key : Text) (value : Json) :
    (Store.put ⟨folder.child name⟩ key value).IsAtomic folder place :=
  (entries_isStill _).bind_isAtomic fun _ => replace_isAtomic hn _

theorem remove_isAtomic (hn : Tree.IsFileName name) (key : Text) :
    (Store.remove ⟨folder.child name⟩ key).IsAtomic folder place := by
  refine (entries_isStill _).bind_isAtomic fun entries => ?_
  split
  · exact replace_isAtomic hn _
  · exact (Action.IsStill.pure _).isAtomic

end Store

end Record

end SessionKeeper
