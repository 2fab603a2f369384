import SessionKeeper.Proofs.Secret.Ledger

/-!
# Vaults that differ in secrets

Two secrets look the same from outside when both are empty or both are not. Two vaults look the
same when they have the same services and accounts in the same order, with secrets that look the
same. Reading an account from both gives such secrets, and putting or removing one leaves such
vaults: what is written differs, but it is written, or left alone, or removed, in both.
-/
namespace SessionKeeper

/-- That two maps have the same keys in the same order, with values that go together. -/
abbrev Assoc.Parallel {κ α : Type} (R : α → α → Prop) (a b : Assoc κ α) : Prop :=
  List.Forall₂ (fun p q => q.1 = p.1 ∧ R p.2 q.2) a b

namespace Assoc.Parallel

variable {κ α : Type} {R : α → α → Prop} {a b : Assoc κ α}

theorem refl (same : ∀ x, R x x) (a : Assoc κ α) : Parallel R a a :=
  List.forall₂_same.mpr fun p _ => ⟨rfl, same p.2⟩

theorem isEmpty_eq (h : Parallel R a b) : b.isEmpty = a.isEmpty := by
  cases h with
  | nil => rfl
  | cons _ _ => rfl

variable [DecidableEq κ]

theorem value? (h : Parallel R a b) (key : κ) : Option.Rel R (a.value? key) (b.value? key) := by
  induction h with
  | nil => exact .none
  | @cons p q a b first rest ih =>
    obtain ⟨k, x⟩ := p
    obtain ⟨_, y⟩ := q
    obtain ⟨rfl, hr⟩ := first
    rw [value?_cons, value?_cons]
    split_ifs
    · exact .some hr
    · exact ih

theorem has_eq (h : Parallel R a b) (key : κ) : b.has key = a.has key := by
  have found := h.value? key
  rw [has, has]
  generalize a.value? key = x at found ⊢
  generalize b.value? key = y at found ⊢
  cases found <;> rfl

theorem put (h : Parallel R a b) (key : κ) {x y : α} (hr : R x y) :
    Parallel R (a.put key x) (b.put key y) := by
  induction h with
  | nil => exact .cons ⟨rfl, hr⟩ .nil
  | @cons p q a b first rest ih =>
    obtain ⟨k, x⟩ := p
    obtain ⟨_, y⟩ := q
    obtain ⟨rfl, old⟩ := first
    rw [Assoc.put, Assoc.put]
    split_ifs
    · exact .cons ⟨rfl, hr⟩ rest
    · exact .cons ⟨rfl, old⟩ ih

theorem remove (h : Parallel R a b) (key : κ) : Parallel R (a.remove key) (b.remove key) := by
  induction h with
  | nil => exact .nil
  | @cons p q a b first rest ih =>
    obtain ⟨k, x⟩ := p
    obtain ⟨_, y⟩ := q
    obtain ⟨rfl, old⟩ := first
    rw [Assoc.remove, Assoc.remove]
    split_ifs
    · exact ih
    · exact .cons ⟨rfl, old⟩ ih

end Assoc.Parallel

theorem Text.isEmpty_rejoin (t : Text) : t.rejoin.isEmpty = t.isEmpty := by
  cases t with
  | nil => rfl
  | cons p rest =>
    cases rest with
    | nil => rfl
    | cons q rest =>
      rw [Text.rejoin]
      split_ifs <;> rw [List.isEmpty_cons, List.isEmpty_cons]

variable [Runtime]

namespace Secret

/-- That two secrets are both empty or both not. -/
def SameEmptiness (s t : Text) : Prop := t.isEmpty = s.isEmpty

omit [Runtime] in
theorem SameEmptiness.refl (s : Text) : SameEmptiness s s := rfl

/-- That two values of accounts are the same, or secrets that look the same. -/
inductive TwinValue : Json → Json → Prop where
  | same (value : Json) : TwinValue value value
  | secret {s t : Text} (h : SameEmptiness s t) : TwinValue (.str s) (.str t)

/-- That two values of services are the same, or the same accounts with such values. -/
inductive TwinAccounts : Json → Json → Prop where
  | same (value : Json) : TwinAccounts value value
  | accounts {a b : Assoc Text Json} (h : Assoc.Parallel TwinValue a b) :
    TwinAccounts (.obj a) (.obj b)

/-- That two vaults have the same services with such values, and can be written again. -/
structure TwinEntries (a b : Assoc Text Json) : Prop where
  left : (Json.obj a).IsRegular (Runtime.reads + 1)
  right : (Json.obj b).IsRegular (Runtime.reads + 1)
  parallel : Assoc.Parallel TwinAccounts a b

/-- That two contents are those of vaults that look the same. -/
def TwinContents (c d : Octets) : Prop :=
  ∃ a b, Record.entriesOf c = .ok (.ok a) ∧ Record.entriesOf d = .ok (.ok b) ∧ TwinEntries a b

/-- That new entries of two vaults are both none, or give contents that look the same. -/
inductive TwinReplacement : Assoc Text Json → Assoc Text Json → Prop where
  | none : TwinReplacement [] []
  | some {a b : Assoc Text Json} {c d : Octets} (left : a ≠ []) (right : b ≠ [])
    (hc : Record.octetsOf (.obj a) = .ok c) (hd : Record.octetsOf (.obj b) = .ok d)
    (h : TwinContents c d) : TwinReplacement a b

namespace TwinEntries

variable {a b : Assoc Text Json}

theorem refl (h : (Json.obj a).IsRegular (Runtime.reads + 1)) : TwinEntries a a :=
  ⟨h, h, .refl .same a⟩

theorem accountsIn (h : TwinEntries a b) (service : Text) :
    Option.Rel (Assoc.Parallel TwinValue) (Vault.accountsIn a service)
      (Vault.accountsIn b service) := by
  have found := h.parallel.value? service
  rw [Vault.accountsIn, Vault.accountsIn]
  generalize a.value? service = x at found ⊢
  generalize b.value? service = y at found ⊢
  cases found with
  | none => exact .none
  | @some x y found =>
    cases found with
    | accounts h => exact .some h
    | same =>
      cases x with
      | obj accounts => exact .some (.refl .same accounts)
      | _ => exact .none

theorem accounts (h : TwinEntries a b) (service : Text) :
    Assoc.Parallel TwinValue ((Vault.accountsIn a service).getD [])
      ((Vault.accountsIn b service).getD []) := by
  have found := h.accountsIn service
  generalize Vault.accountsIn a service = x at found ⊢
  generalize Vault.accountsIn b service = y at found ⊢
  cases found with
  | none => exact .nil
  | some h => exact h

theorem secret (h : TwinEntries a b) (service account : Text) :
    Option.Rel SameEmptiness
      ((Vault.accountsIn a service).bind fun accounts => (accounts.value? account).bind Json.text?)
      ((Vault.accountsIn b service).bind fun accounts => (accounts.value? account).bind Json.text?) := by
  have found := h.accountsIn service
  generalize Vault.accountsIn a service = x at found ⊢
  generalize Vault.accountsIn b service = y at found ⊢
  cases found with
  | none => exact .none
  | @some x y found =>
    have value := Assoc.Parallel.value? found account
    show Option.Rel SameEmptiness ((Assoc.value? x account).bind Json.text?)
      ((Assoc.value? y account).bind Json.text?)
    generalize Assoc.value? x account = v at value ⊢
    generalize Assoc.value? y account = w at value ⊢
    cases value with
    | none => exact .none
    | @some v w value =>
      cases value with
      | secret h => exact .some h
      | same =>
        cases v with
        | str s => exact .some rfl
        | _ => exact .none

end TwinEntries

/-- That entries can be written, and what they are once they are read again. -/
structure Rereads (entries again : Assoc Text Json) : Prop where
  some_left : entries ≠ []
  fits : (Json.obj entries).fits (Runtime.reads + 1) = true
  canonical : (Json.obj entries).isCanonical = true
  reread : (Json.obj entries).reread = .obj again

namespace Rereads

variable {entries again : Assoc Text Json}

theorem of_regular (h : (Json.obj entries).IsRegular (Runtime.reads + 1))
    (some_left : entries ≠ []) : Rereads entries entries :=
  ⟨some_left, h.fits, h.canonical, h.reread_eq⟩

theorem octets (h : Rereads entries again) : ∃ c, Record.octetsOf (.obj entries) = .ok c ∧
    Record.entriesOf c = .ok (.ok again) := by
  refine ⟨_, Record.octetsOf_eq_ok.mpr ⟨Json.fits_prints h.fits, rfl⟩, ?_⟩
  rw [Record.entriesOf_octetsIn entries h.canonical h.fits]
  exact congrArg (fun members => Except.ok (Except.ok members)) (Json.obj.inj h.reread)

theorem put (h : (Json.obj entries).IsRegular (Runtime.reads + 1))
    (service account secret : Text) :
    Rereads
      (entries.put service (.obj (((Vault.accountsIn entries service).getD []).put account
        (.str secret))))
      (entries.put service.rejoin (.obj (((Vault.accountsIn entries service).getD []).put
        account.rejoin (.str secret.rejoin)))) := by
  have accounts := Vault.isRegular_accounts h service
  obtain ⟨inner, levels⟩ := Json.exists_room_of_obj accounts.fits
  rw [levels] at accounts
  have within := (Json.fits_put accounts.fits account (.str secret)).trans (Json.fits_str secret)
  refine ⟨Assoc.put_ne_nil _ _ _, ?_, Json.isCanonical_put h.canonical service
    (Json.isCanonical_put accounts.canonical account rfl), (Json.reread_put h service _).trans ?_⟩
  · rwa [Json.fits_put h.fits, levels]
  · rw [Json.reread_put accounts account (.str secret)]
    rfl

end Rereads

/-- Entries that look the same once they are read again have contents that look the same. -/
theorem TwinReplacement.of_rereads {x y a b : Assoc Text Json} (left : Rereads x a)
    (right : Rereads y b) (h : TwinEntries a b) : TwinReplacement x y := by
  obtain ⟨c, hc, ha⟩ := left.octets
  obtain ⟨d, hd, hb⟩ := right.octets
  exact .some left.some_left right.some_left hc hd ⟨a, b, ha, hb, h⟩

namespace TwinEntries

variable {a b : Assoc Text Json}

theorem put (h : TwinEntries a b) (service account : Text) {s t : Text} (hs : SameEmptiness s t) :
    TwinReplacement
      (a.put service (.obj (((Vault.accountsIn a service).getD []).put account (.str s))))
      (b.put service (.obj (((Vault.accountsIn b service).getD []).put account (.str t)))) := by
  have secret : SameEmptiness s.rejoin t.rejoin := by
    rw [SameEmptiness, Text.isEmpty_rejoin, Text.isEmpty_rejoin, hs]
  have regular {entries : Assoc Text Json} (h : (Json.obj entries).IsRegular (Runtime.reads + 1))
      (secret : Text) :
      (Json.obj (entries.put service.rejoin (.obj (((Vault.accountsIn entries service).getD []).put
        account.rejoin (.str secret.rejoin))))).IsRegular (Runtime.reads + 1) :=
    h.put (Text.isJoined_rejoin service) ((Vault.isRegular_accounts h service).putText
      (Text.isJoined_rejoin account) (Text.isJoined_rejoin secret))
  exact .of_rereads (.put h.left service account s) (.put h.right service account t)
    ⟨regular h.left s, regular h.right t,
      h.parallel.put _ (.accounts ((h.accounts service).put _ (.secret secret)))⟩

/-- The entries without an account, and without its service if that was the last one. -/
theorem remove (h : TwinEntries a b) {service : Text} {x y : Assoc Text Json}
    (hx : Vault.accountsIn a service = some x) (hy : Vault.accountsIn b service = some y)
    (accounts : Assoc.Parallel TwinValue x y) (account : Text) :
    TwinReplacement
      (if (x.remove account).isEmpty then a.remove service else a.put service (.obj (x.remove account)))
      (if (y.remove account).isEmpty then b.remove service
        else b.put service (.obj (y.remove account))) := by
  have left := Vault.isRegular_remove h.left hx account
  have right := Vault.isRegular_remove h.right hy account
  have same := Assoc.Parallel.isEmpty_eq (accounts.remove account)
  have parallel : Assoc.Parallel TwinAccounts
      (if (x.remove account).isEmpty then a.remove service else a.put service (.obj (x.remove account)))
      (if (y.remove account).isEmpty then b.remove service
        else b.put service (.obj (y.remove account))) := by
    rw [same]
    split_ifs
    · exact h.parallel.remove service
    · exact h.parallel.put service (.accounts (accounts.remove account))
  generalize (if (x.remove account).isEmpty then a.remove service
    else a.put service (.obj (x.remove account))) = p at left parallel ⊢
  generalize (if (y.remove account).isEmpty then b.remove service
    else b.put service (.obj (y.remove account))) = q at right parallel ⊢
  cases parallel with
  | nil => exact .none
  | cons first rest =>
    exact .of_rereads (.of_regular left (List.cons_ne_nil _ _))
      (.of_regular right (List.cons_ne_nil _ _)) ⟨left, right, .cons first rest⟩

end TwinEntries

end Secret

end SessionKeeper
