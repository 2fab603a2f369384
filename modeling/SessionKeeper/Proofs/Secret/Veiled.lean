import SessionKeeper.Proofs.Secret.Veil

/-!
# Secrets behind a veil

The vault and the keychain of the platform cannot be told from those of a twin: they have the same
accounts, with secrets that look the same. What is written to the vault differs. It stands in the
temporary file first, which is veiled on the way, and it comes from there to the vault's file or
is given up, so that nothing but the vault's file differs in the end.
-/
namespace SessionKeeper

open Secret (SameEmptiness TwinContents TwinEntries TwinReplacement)
open Secret.Vault (fileName)
open SessionKeeper.Action (Agrees)

/-- That a path leads to a location, in whatever tree. -/
def Path.LeadsTo (directory : Location) (path : Path) (l : Location) : Prop :=
  ∃ tree : Tree, tree.locate directory path = .ok l

/-- A path leads to one location at most, so that a veil over a path hides one file. -/
theorem Path.LeadsTo.unique {directory a b : Location} {path : Path}
    (ha : path.LeadsTo directory a) (hb : path.LeadsTo directory b) : a = b := by
  obtain ⟨tree, ha⟩ := ha
  obtain ⟨other, hb⟩ := hb
  exact Tree.walk_unique ha hb

/-- The veil over the vault in a folder: the vault's file, and on the way its temporary files. -/
def Veil.ofVault (directory : Location) (folder : Path) : Veil where
  hidden := (folder.child fileName).LeadsTo directory
  along l := (folder.child fileName).LeadsTo directory l ∨
    ∃ k, (folder.child (Machine.temporaryName fileName k)).LeadsTo directory l
  wider _ := .inl
  tucked := by
    rintro l ⟨tree, leads⟩
    exact Tree.getLast?_of_locate (by decide) leads

def Veil.bare : Veil where
  hidden _ := False
  along _ := False
  wider _ := id
  tucked _ := False.elim

variable [Runtime]

section Reading

variable {directory : Location} {veil : Veil}

/-- What both machines answer is the same, or the contents of vaults that look the same. -/
theorem Record.readFile_veiled (path : Path) :
    Action.Pairs (.veiled directory veil) (Machine.Veiled directory veil.hidden)
      (Action.ask (.readFile path)) (Action.ask (.readFile path))
      fun r s m n => m.Veiled directory veil.hidden n ∧
        (s = r ∨ ∃ c d, r = .ok c ∧ s = .ok d ∧ TwinContents c d) := by
  refine .ask fun m n alike => ⟨⟨alike, ?_⟩, .cons (alike.twins.mono veil.wider) .nil⟩
  have answered : (n.answer (.readFile path)).1 = n.tree.read m.directory path := by
    rw [Machine.answer, alike.twins.directory_eq]
  rw [answered]
  rcases alike.twins.trees.read_cases m.directory path with same | ⟨l, c, d, -, -, hc, hd, contents⟩
  · exact .inl same
  · exact .inr ⟨c, d, hc, hd, contents⟩

/-- What is read from a record file anywhere are the same entries, or those of vaults that look the
same. -/
theorem Record.read_veiled (path : Path) : Agrees (.veiled directory veil)
    (fun c d : Record.Content => TwinEntries c.entries d.entries) (Record.read path)
      (Record.read path) := by
  have empty : TwinEntries [] [] := .refl ⟨rfl, rfl⟩
  have unusable (defect : Record.Defect) :
      Agrees (.veiled directory veil) (fun c d : Record.Content => TwinEntries c.entries d.entries)
        (do
          Action.log .warning .records defect.message
          return .recovered)
        (do
          Action.log .warning .records defect.message
          return .recovered) :=
    (Action.log_veiled _ _ _).bind_eq fun _ => .pure empty
  refine (readFile_veiled path).bind fun r s => ?_
  rintro m n ⟨alike, rfl | ⟨c, d, rfl, rfl, a, b, ha, hb, twins⟩⟩
  · refine (?_ : Agrees (.veiled directory veil) _ _ _) m n alike
    cases s with
    | error fault =>
      cases fault with
      | absent => exact .pure empty
      | _ => exact unusable _
    | ok octets =>
      dsimp only
      split
      · exact .throw _
      · exact unusable _
      · rename_i entries found
        exact .pure (.refl (Record.isRegular_of_entriesOf found))
  · have found : Agrees (.veiled directory veil)
        (fun c d : Record.Content => TwinEntries c.entries d.entries) (pure ⟨.found, a⟩)
        (pure ⟨.found, b⟩) := .pure twins
    dsimp only
    rw [ha, hb]
    exact found m n alike

theorem Record.Store.entries_veiled (store : Record.Store) :
    Agrees (.veiled directory veil) TwinEntries store.entries store.entries :=
  (read_veiled store.path).bind fun _ _ h => .pure h

/-- What both vaults say of an account looks the same. -/
theorem Secret.Vault.get?_veiled (vault : Secret.Vault) (service account : Text) :
    Agrees (.veiled directory veil) (Option.Rel SameEmptiness) (vault.get? service account)
      (vault.get? service account) :=
  vault.store.entries_veiled.bind fun _ _ h => .pure (h.secret service account)

end Reading

/-- The temporary file that gets the new content of the vault in a folder. -/
def Secret.Vault.draft (folder : Path) (k : Nat) : Path :=
  folder.child (Machine.temporaryName fileName k)

open Secret.Vault (draft)

/-- That two machines are about to replace the vault, by a file that stands somewhere beside it. -/
structure Machine.Halfway (directory : Location) (folder : Path) (k number : Nat) (l : Location)
    (m n : Machine) : Prop where
  leads : m.tree.locate directory (draft folder k) = .ok l
  there : ∃ mode content, m.tree.node? l = some (.file number mode content)
  alike : m.Veiled directory
    (fun x => (folder.child fileName).LeadsTo directory x ∨ x = l) n

section Replacing

variable {directory : Location} {folder : Path} {k number : Nat} {l : Location} {m n : Machine}

namespace Machine.Halfway

theorem find (h : Halfway directory folder k number l m n) : ∃ mode content,
    m.tree.find m.directory (draft folder k) = .ok (l, .file number mode content) := by
  obtain ⟨mode, content, there⟩ := h.there
  rw [h.alike.directory]
  exact ⟨mode, content, Tree.find_of_leads h.leads there⟩

theorem ne_root (h : Halfway directory folder k number l m n) : l ≠ [] := by
  rintro rfl
  obtain ⟨_, _, there⟩ := h.there
  cases there

theorem not_isDirectory (h : Halfway directory folder k number l m n) :
    m.tree.isDirectory l = false := by
  obtain ⟨_, _, there⟩ := h.there
  rw [Tree.isDirectory, there]
  rfl

/-- The temporary file is veiled on the way. -/
theorem passed (h : Halfway directory folder k number l m n) :
    List.Forall₂ (Twin (Veil.ofVault directory folder).along) [m] [n] := by
  refine .cons (h.alike.twins.mono fun x hx => hx.imp_right ?_) .nil
  rintro rfl
  exact ⟨k, m.tree, h.leads⟩

end Machine.Halfway

theorem Secret.Vault.createTemporary_veiled :
    Action.Pairs (.veiled directory (.ofVault directory folder))
      (Machine.Veiled directory (Veil.ofVault directory folder).hidden)
      (Action.ask (.createTemporary folder fileName)) (Action.ask (.createTemporary folder fileName))
      fun r s m n => s = r ∧
        ((∃ fault, r = .error fault) ∧ m.Veiled directory (Veil.ofVault directory folder).hidden n ∨
          ∃ k number l, r = .ok (draft folder k, number) ∧
            m.Halfway directory folder k number l n) := by
  refine .ask fun m n alike => ?_
  obtain ⟨same, after, passed⟩ :=
    alike.answer (.ofVault directory folder) (.createTemporary folder fileName) trivial
  refine ⟨⟨same, ?_⟩, passed⟩
  cases made : (m.answer (.createTemporary folder fileName)).1 with
  | error fault => exact .inl ⟨⟨fault, rfl⟩, after⟩
  | ok made' =>
    obtain ⟨temporary, number⟩ := made'
    obtain ⟨k, l, rfl, leads, there⟩ := Machine.answer_createTemporary_ok made
    rw [alike.directory] at leads
    exact .inr ⟨k, number, l, rfl, leads, there, after.directory,
      after.twins.mono fun _ hx => .inl hx⟩

/-- The contents that are written may differ, since nothing else is the temporary file. -/
theorem Secret.Vault.writeFile_veiled {c d : Octets} (contents : TwinContents c d) :
    Action.Pairs (.veiled directory (.ofVault directory folder))
      (Machine.Halfway directory folder k number l) (Action.ask (.writeFile number c))
      (Action.ask (.writeFile number d)) fun _ _ m n => m.Halfway directory folder k number l n := by
  refine .ask fun m n h => ?_
  obtain ⟨mode, content, there⟩ := h.there
  have numbered := h.alike.twins.numbered
  have after : Machine.Halfway directory folder k number l (m.answer (.writeFile number c)).2
      (n.answer (.writeFile number d)).2 := by
    refine ⟨Tree.locate_writeFile h.leads, ⟨mode, c, ?_⟩, h.alike.directory, ?_⟩
    · show (m.tree.writeFile number c).node? l = _
      rw [Tree.node?_writeFile, there]
      exact congrArg some (if_pos rfl)
    · exact h.alike.twins.retree (numbered.writeFile number c) (h.alike.twins.trees.writeFile
        (.inr ⟨contents, fun x mode' old hx => .inr (numbered.distinct _ _ _ _ _ _ _ hx there)⟩))
  exact ⟨after, after.passed⟩

/-- The temporary file is given its permissions. -/
theorem Secret.Vault.setMode_veiled (mode : Nat) :
    Action.Pairs (.veiled directory (.ofVault directory folder))
      (Machine.Halfway directory folder k number l) (Action.ask (.setMode (draft folder k) mode))
      (Action.ask (.setMode (draft folder k) mode))
      fun r s m n => r = .ok () ∧ s = .ok () ∧ m.Halfway directory folder k number l n := by
  refine .ask fun m n h => ?_
  obtain ⟨old, content, found⟩ := h.find
  obtain ⟨same, twins⟩ := h.alike.twins.setMode (draft folder k) mode
  have answered : m.answer (.setMode (draft folder k) mode) =
      (.ok (), { m with tree := m.tree.put l (.file number mode content) }) := by
    rw [Machine.answer, Tree.setMode, found]
    rfl
  have after : Machine.Halfway directory folder k number l
      (m.answer (.setMode (draft folder k) mode)).2 (n.answer (.setMode (draft folder k) mode)).2 := by
    rw [answered] at twins ⊢
    refine ⟨Tree.locate_put (fun _ => rfl) h.not_isDirectory h.leads, ⟨mode, content, ?_⟩,
      h.alike.directory, twins⟩
    show (m.tree.put l _).node? l = _
    rw [Tree.node?_put _ _ _ _ h.ne_root, if_pos rfl]
  rw [answered] at same
  exact ⟨⟨congrArg Prod.fst answered, same, after⟩, after.passed⟩

/-- The temporary file takes the place of the vault's file, or that is refused. -/
theorem Secret.Vault.rename_veiled :
    Action.Pairs (.veiled directory (.ofVault directory folder))
      (Machine.Halfway directory folder k number l)
      (Action.ask (.rename (draft folder k) (folder.child fileName)))
      (Action.ask (.rename (draft folder k) (folder.child fileName)))
      fun r s m n => (∃ fault, r = .error fault ∧ s = .error fault ∧
          m.Halfway directory folder k number l n) ∨
        r = .ok () ∧ s = .ok () ∧ m.Veiled directory (Veil.ofVault directory folder).hidden n := by
  refine .ask fun m n h => ?_
  have goal_hidden (goal : Location)
      (hg : m.tree.locate m.directory (folder.child fileName) = .ok goal) :
      (folder.child fileName).LeadsTo directory goal := ⟨m.tree, h.alike.directory ▸ hg⟩
  obtain ⟨mode, content, found⟩ := h.find
  obtain ⟨same, twins⟩ := h.alike.twins.rename (draft folder k) (folder.child fileName)
    fun _ goal _ hg _ => .inl (goal_hidden goal hg)
  cases result : m.tree.rename m.directory (draft folder k) (folder.child fileName) with
  | error fault =>
    have answered : m.answer (.rename (draft folder k) (folder.child fileName)) =
        (.error fault, m) := by
      rw [Machine.answer, result]
      rfl
    rw [answered] at same twins ⊢
    have after : Machine.Halfway directory folder k number l m _ :=
      ⟨h.leads, h.there, h.alike.directory, twins⟩
    exact ⟨.inl ⟨fault, rfl, same, after⟩, after.passed⟩
  | ok moved =>
    have answered : m.answer (.rename (draft folder k) (folder.child fileName)) =
        (.ok (), { m with tree := moved }) := by
      rw [Machine.answer, result]
      rfl
    rw [answered] at same twins ⊢
    have gone (x : Location) (hx : (folder.child fileName).LeadsTo directory x ∨ x = l) :
        (folder.child fileName).LeadsTo directory x ∨ moved.node? x = none := by
      rw [Tree.rename, found] at result
      obtain ⟨_, ⟨⟩, result⟩ := exists_of_bind_ok result
      obtain ⟨goal, hg, result⟩ := exists_of_bind_ok result
      split_ifs at result
      obtain rfl := Except.ok.inj result
      rcases hx with here | rfl
      · exact .inl here
      · by_cases there : goal = x
        · exact .inl (there ▸ goal_hidden goal hg)
        · right
          rw [Tree.node?_put _ _ _ _ h.ne_root, if_neg there, Tree.node?_remove _ _ _ h.ne_root,
            if_pos rfl]
    have after := twins.narrow gone
    exact ⟨.inr ⟨rfl, same, h.alike.directory, after⟩,
      .cons (after.mono (Veil.ofVault directory folder).wider) .nil⟩

/-- The temporary file is given up, and nothing but the vault's file is hidden again. -/
theorem Secret.Vault.discard_veiled (fault : FileFault) {α : Type} {V : α → α → Prop} :
    Action.Pairs (.veiled directory (.ofVault directory folder))
      (Machine.Halfway directory folder k number l)
      (Record.discard (draft folder k) fault : Action α) (Record.discard (draft folder k) fault)
      fun a b m n => V a b ∧ m.Veiled directory (Veil.ofVault directory folder).hidden n := by
  have given_up : Action.Pairs (.veiled directory (.ofVault directory folder))
      (Machine.Halfway directory folder k number l) (Action.ask (.unlink (draft folder k)))
      (Action.ask (.unlink (draft folder k)))
      fun _ _ m n => m.Veiled directory (Veil.ofVault directory folder).hidden n := by
    refine .ask fun m n h => ?_
    obtain ⟨mode, content, found⟩ := h.find
    obtain ⟨-, twins⟩ := h.alike.twins.unlink (draft folder k)
    have answered : m.answer (.unlink (draft folder k)) =
        (.ok (), { m with tree := m.tree.remove l }) := by
      rw [Machine.answer, Tree.unlink, found]
      rfl
    rw [answered] at twins ⊢
    have after := twins.narrow fun x hx => hx.imp_right fun (here : x = l) => by
      subst here
      show (m.tree.remove x).node? x = none
      rw [Tree.node?_remove _ _ _ h.ne_root, if_pos rfl]
    exact ⟨⟨h.alike.directory, after⟩, .cons (after.mono (Veil.ofVault directory folder).wider) .nil⟩
  exact given_up.bind fun _ _ => .throw _ fun _ _ alike => alike

theorem Secret.Vault.replaceFile_veiled {c d : Octets} (contents : TwinContents c d) :
    Agrees (.veiled directory (.ofVault directory folder)) Eq
      (Record.replaceFile (folder.child fileName) c)
      (Record.replaceFile (folder.child fileName) d) := by
  unfold Record.replaceFile
  rw [Path.parent_child, Path.name_child]
  refine createTemporary_veiled.bind fun r s m n => ?_
  rintro ⟨rfl, ⟨⟨fault, rfl⟩, alike⟩ | ⟨k, number, l, rfl, halfway⟩⟩
  · exact Agrees.throw _ m n alike
  · have made : Action.ofFile (.ok (draft folder k, number)) = pure (draft folder k, number) := rfl
    rw [made, pure_bind, pure_bind]
    refine (writeFile_veiled contents).bind (fun _ _ => ?_) m n halfway
    refine (setMode_veiled Record.privateMode).bind fun r s => ?_
    rintro m n ⟨rfl, rfl, halfway⟩
    refine rename_veiled.bind (fun r s => ?_) m n halfway
    rintro m n (⟨fault, rfl, rfl, halfway⟩ | ⟨rfl, rfl, alike⟩)
    · exact discard_veiled fault m n halfway
    · exact Agrees.pure rfl m n alike

/-- The vault gets new entries that look the same, or is removed. -/
theorem Secret.Vault.replace_veiled {a b : Assoc Text Json} (h : TwinReplacement a b) :
    Agrees (.veiled directory (.ofVault directory folder)) Eq
      (Record.Store.replace ⟨folder.child fileName⟩ a)
      (Record.Store.replace ⟨folder.child fileName⟩ b) := by
  cases h with
  | none =>
    refine .of_blind (.bind (.bind (.ask trivial) fun answer => ?_) fun removed => ?_)
    · split
      · exact .pure _
      · exact .pure _
      · exact .throw _
    · split
      · exact .ask trivial
      · exact .pure _
  | some left right hc hd contents =>
    unfold Record.Store.replace Record.write
    rw [if_neg (by simpa using left), if_neg (by simpa using right), hc, hd, Path.parent_child]
    exact (Agrees.of_blind (Folder.ensure_blind folder)).bind_eq fun _ =>
      replaceFile_veiled contents

theorem Secret.Vault.put_veiled (service account : Text) {s t : Text} (h : SameEmptiness s t) :
    Agrees (.veiled directory (.ofVault directory folder)) Eq
      ((Vault.inFolder folder).put service account s)
      ((Vault.inFolder folder).put service account t) :=
  (Record.Store.entries_veiled _).bind fun _ _ entries => replace_veiled (entries.put _ _ h)

theorem Secret.Vault.remove_veiled (service account : Text) :
    Agrees (.veiled directory (.ofVault directory folder)) Eq
      ((Vault.inFolder folder).remove service account)
      ((Vault.inFolder folder).remove service account) := by
  refine (Record.Store.entries_veiled _).bind fun a b entries => ?_
  have found := entries.accountsIn service
  cases hx : Vault.accountsIn a service with
  | none =>
    rw [hx] at found
    cases hy : Vault.accountsIn b service with
    | none => exact .pure rfl
    | some y =>
      rw [hy] at found
      cases found
  | some x =>
    rw [hx] at found
    cases hy : Vault.accountsIn b service with
    | none =>
      rw [hy] at found
      cases found
    | some y =>
      rw [hy] at found
      cases found with
      | some accounts =>
        dsimp only
        rw [Assoc.Parallel.has_eq accounts]
        split
        · exact replace_veiled (entries.remove hx hy accounts account)
        · exact .pure rfl

end Replacing

section Platform

variable {directory : Location} {veil : Veil}

theorem Secret.Backend.platform_get?_veiled (service account : Text) :
    Agrees (.veiled directory veil) (Option.Rel SameEmptiness)
      (platform.get? service account) (platform.get? service account) := by
  refine .ask fun m n alike => ?_
  have after := List.Forall₂.cons (alike.twins.mono veil.wider) .nil
  cases alike.twins with
  | intro numbered trees keychains keyservers =>
    exact ⟨⟨keychains.value? (service, account), alike⟩, after⟩

theorem Secret.Backend.platform_put_veiled (service account : Text) {s t : Text}
    (h : SameEmptiness s t) : Agrees (.veiled directory veil) Eq (platform.put service account s)
      (platform.put service account t) := by
  refine .ask fun m n alike => ?_
  have twins : Machine.Twin veil.hidden (m.answer (.keychainSet service account s)).2
      (n.answer (.keychainSet service account t)).2 := by
    cases alike.twins with
    | intro numbered trees keychains keyservers =>
      exact .intro numbered trees (keychains.put (service, account) h) keyservers
  exact ⟨⟨rfl, alike.directory, twins⟩, .cons (twins.mono veil.wider) .nil⟩

theorem Secret.Backend.platform_remove_veiled (service account : Text) :
    Agrees (.veiled directory veil) Eq (platform.remove service account)
      (platform.remove service account) := by
  refine .of_blind (.bind (.ask trivial) fun there => ?_)
  split
  · exact .ask trivial
  · exact .pure _

/-- What the keyserver tells looks the same. -/
theorem Keyserver.post_veiled (request : Keyserver.Request) :
    Agrees (.veiled directory veil) (Keyserver.Outcome.Matches SameEmptiness)
      (Action.ask (.post request)) (Action.ask (.post request)) := by
  refine .ask fun m n alike => ?_
  have twins : Machine.Twin veil.hidden (m.answer (.post request)).2
      (n.answer (.post request)).2 := by
    cases alike.twins with
    | intro numbered trees keychains keyservers =>
      exact .intro numbered trees keychains keyservers
  refine ⟨⟨?_, alike.directory, twins⟩, .cons (twins.mono veil.wider) .nil⟩
  cases alike.twins with
  | intro numbered trees keychains keyservers => exact keyservers m.requests request

end Platform

end SessionKeeper
