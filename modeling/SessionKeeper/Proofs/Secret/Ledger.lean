import SessionKeeper.Proofs.Record.Regular
import SessionKeeper.Secret.Backend

/-!
# What backends keep

A ledger tells the secret of every account of every service. `Keeps` is what is asked of a
backend: it keeps a ledger as long as the vault's file and the keychain are left alone, gives
back what the ledger tells, and writes one account at a time. The vault in a folder does so,
and so does the keychain of the platform.
-/
namespace SessionKeeper.Secret

/-- The secrets by service and account. -/
abbrev Ledger := Text → Text → Option Text

namespace Ledger

def empty : Ledger := fun _ _ => none

def put (ledger : Ledger) (service account secret : Text) : Ledger := fun s a =>
  if s = service ∧ a = account then some secret else ledger s a

def remove (ledger : Ledger) (service account : Text) : Ledger := fun s a =>
  if s = service ∧ a = account then none else ledger s a

@[simp] theorem put_self (ledger : Ledger) (service account secret : Text) :
    ledger.put service account secret service account = some secret := if_pos ⟨rfl, rfl⟩

@[simp] theorem remove_self (ledger : Ledger) (service account : Text) :
    ledger.remove service account service account = none := if_pos ⟨rfl, rfl⟩

theorem put_of_ne (ledger : Ledger) {service s : Text} (h : s ≠ service) (account secret a : Text) :
    ledger.put service account secret s a = ledger s a := if_neg fun hs => h hs.1

theorem remove_of_ne (ledger : Ledger) {service s : Text} (h : s ≠ service) (account a : Text) :
    ledger.remove service account s a = ledger s a := if_neg fun hs => h hs.1

end Ledger

/-- Whether a name is that of the vault's file or of a temporary file beside it. -/
def Vault.IsOwnName (name : String) : Prop :=
  name = fileName ∨ ∃ k, name = Machine.temporaryName fileName k

theorem Vault.isRecordName : Record.IsRecordName fileName :=
  ⟨⟨by decide, by decide⟩, ⟨by decide, by decide⟩⟩

/-- That no file was touched but the vault's, and that it can still be written. -/
structure Stirred (place : Location) (before after : Machine) : Prop where
  only : ChangedOnly place (· = Vault.fileName) before after
  writable : Record.Writable after place Vault.fileName

theorem Stirred.of_touched {place : Location} {before after : Machine}
    (h : Record.Touched place Vault.fileName before after) : Stirred place before after :=
  ⟨h.only, h.writable⟩

theorem Stirred.of_tree {place : Location} {before after : Machine}
    (w : Record.Writable before place Vault.fileName) (h : after.tree = before.tree) :
    Stirred place before after where
  only := .of_tree h
  writable := by
    constructor
    · rw [Machine.under, h]
      exact w.free
    · intro mode
      rw [Machine.under, h]
      exact w.plain mode

/-- That a backend keeps a ledger, which is told from a machine by `holds`. -/
structure Backend.Keeps (folder : Path) (place : Location) (secrets : Backend)
    (holds : Machine → Ledger → Prop) : Prop where
  same {machine after : Machine} {ledger : Ledger} (h : holds machine ledger)
    (vault : after.under place Vault.fileName = machine.under place Vault.fileName)
    (keychain : after.keychain = machine.keychain) : holds after ledger
  get? {machine : Machine} {ledger : Ledger} (g : Ground machine folder place)
    (h : holds machine ledger) (service account : Text) :
    ∃ after, (secrets.get? service account).exec machine = (.ok (ledger service account), after) ∧
      machine.Quiet after
  put {machine : Machine} {ledger : Ledger} (g : Ground machine folder place)
    (w : Record.Writable machine place Vault.fileName) (h : holds machine ledger)
    {service account : Text} (joined : service.IsJoined ∧ account.IsJoined) (secret : Text) :
    ∃ stored after, (secrets.put service account secret).exec machine = (.ok (), after) ∧
      Stirred place machine after ∧ holds after (ledger.put service account stored) ∧
      (secret.IsJoined → stored = secret)
  remove {machine : Machine} {ledger : Ledger} (g : Ground machine folder place)
    (w : Record.Writable machine place Vault.fileName) (h : holds machine ledger)
    (service account : Text) :
    ∃ after, (secrets.remove service account).exec machine = (.ok (), after) ∧
      Stirred place machine after ∧ holds after (ledger.remove service account)
  put_yields {machine : Machine} (g : Ground machine folder place) {service account secret : Text}
    (joined : service.IsJoined ∧ account.IsJoined ∧ secret.IsJoined) :
    (secrets.put service account secret).Yields machine fun _ after =>
      ∃ ledger, holds after ledger ∧ ledger service account = some secret
  put_confined (service account secret : Text) :
    (secrets.put service account secret).Confined folder place Vault.IsOwnName
  remove_confined (service account : Text) :
    (secrets.remove service account).Confined folder place Vault.IsOwnName

namespace Vault

variable {machine : Machine} {folder : Path} {place : Location} {entries : Assoc Text Json}

def ledgerOf (entries : Assoc Text Json) : Ledger := fun service account =>
  (accountsIn entries service).bind fun accounts => (accounts.value? account).bind Json.text?

variable [Runtime]

/-- That the vault's file is in order and has the secrets of a ledger. -/
def HoldsLedger (place : Location) (machine : Machine) (ledger : Ledger) : Prop :=
  ∃ entries, Record.Holds machine place fileName entries ∧ ledgerOf entries = ledger

theorem isRegular_accounts (h : (Json.obj entries).IsRegular (Runtime.reads + 1))
    (service : Text) :
    (Json.obj ((accountsIn entries service).getD [])).IsRegular Runtime.reads := by
  have empty : (Json.obj []).IsRegular Runtime.reads :=
    Json.IsRegular.roomy ((Json.isRegular_obj []).mpr ⟨List.nodup_nil, nofun⟩) (by decide : 1 ≤ 8)
  rw [accountsIn]
  cases hv : entries.value? service with
  | none => exact empty
  | some value =>
    have regular := (((Json.isRegular_obj entries).mp h).2 _ (Assoc.mem_of_value? hv)).2
    cases value with
    | obj accounts => exact regular
    | _ => exact empty

omit [Runtime] in
theorem ledgerOf_put (entries : Assoc Text Json) (service account secret : Text) :
    ledgerOf (entries.put service (.obj (((accountsIn entries service).getD []).put account
      (.str secret)))) = (ledgerOf entries).put service account secret := by
  funext s a
  rw [ledgerOf, accountsIn, Assoc.value?_put, Ledger.put]
  by_cases hs : service = s
  · subst hs
    rw [if_pos rfl]
    show ((Assoc.value? (((accountsIn entries service).getD []).put account (.str secret)) a).bind
      Json.text?) = _
    rw [Assoc.value?_put]
    by_cases ha : account = a
    · subst ha
      simp [Json.text?]
    · rw [if_neg ha, if_neg fun h => ha h.2.symm, ledgerOf]
      cases accountsIn entries service <;> rfl
  · rw [if_neg hs, if_neg fun h => hs h.1.symm]
    rfl

omit [Runtime] in
theorem ledgerOf_remove {accounts : Assoc Text Json} {service : Text}
    (h : accountsIn entries service = some accounts) (account : Text) :
    ledgerOf (if (accounts.remove account).isEmpty then entries.remove service
        else entries.put service (.obj (accounts.remove account))) =
      (ledgerOf entries).remove service account := by
  have left (a : Text) : ((accounts.remove account).value? a).bind Json.text? =
      if a = account then none else (accounts.value? a).bind Json.text? := by
    rw [Assoc.value?_remove]
    by_cases ha : account = a
    · simp [ha]
    · rw [if_neg ha, if_neg fun h => ha h.symm]
  funext s a
  rw [Ledger.remove]
  by_cases hs : s = service
  · subst hs
    have told : ledgerOf entries s a = (accounts.value? a).bind Json.text? := by
      rw [ledgerOf, h]
      rfl
    simp only [true_and]
    rw [told, ← left]
    split_ifs with he
    · rw [ledgerOf, accountsIn, Assoc.value?_remove, if_pos rfl, List.isEmpty_iff.mp he]
      rfl
    · rw [ledgerOf, accountsIn, Assoc.value?_put, if_pos rfl]
      rfl
  · rw [if_neg (show ¬(s = service ∧ a = account) from fun h => hs h.1)]
    have other : Ne service s := fun h => hs h.symm
    split_ifs
    · rw [ledgerOf, accountsIn, Assoc.value?_remove, if_neg other]
      rfl
    · rw [ledgerOf, accountsIn, Assoc.value?_put, if_neg other]
      rfl

theorem isRegular_remove (h : (Json.obj entries).IsRegular (Runtime.reads + 1))
    {accounts : Assoc Text Json} {service : Text} (ha : accountsIn entries service = some accounts)
    (account : Text) :
    (Json.obj (if (accounts.remove account).isEmpty then entries.remove service
      else entries.put service (.obj (accounts.remove account)))).IsRegular
        (Runtime.reads + 1) := by
  have regular := isRegular_accounts h service
  rw [ha] at regular
  split_ifs
  · exact h.remove service
  · refine h.put ?_ (regular.remove account)
    cases hv : entries.value? service with
    | none =>
      rw [accountsIn, hv] at ha
      nomatch ha
    | some value => exact (((Json.isRegular_obj entries).mp h).2 _ (Assoc.mem_of_value? hv)).1

omit [Runtime] in
theorem ledgerOf_of_accountsIn_eq_none {service : Text} (h : accountsIn entries service = none)
    (account : Text) : (ledgerOf entries).remove service account = ledgerOf entries := by
  funext s a
  rw [Ledger.remove]
  split_ifs with hs
  · rw [hs.1, ledgerOf, h]
    rfl
  · rfl

omit [Runtime] in
theorem ledgerOf_of_absent {accounts : Assoc Text Json} {service account : Text}
    (h : accountsIn entries service = some accounts) (absent : accounts.has account = false) :
    (ledgerOf entries).remove service account = ledgerOf entries := by
  funext s a
  rw [Ledger.remove]
  split_ifs with hs
  · have gone : accounts.value? account = none := by
      rwa [Assoc.has, Option.isSome_eq_false_iff, Option.isNone_iff_eq_none] at absent
    rw [hs.1, hs.2, ledgerOf, h]
    simp [gone]
  · rfl

/-- What is written by replacing the entries stays within the vault's names. -/
theorem entries_bind_confined (next : Assoc Text Json → Action Unit)
    (h : ∀ entries, (∃ entries', next entries =
      Record.Store.replace ⟨folder.child fileName⟩ entries') ∨ next entries = pure ()) :
    (Record.Store.entries ⟨folder.child fileName⟩ >>= next).Confined folder place IsOwnName := by
  refine .bind (.of_passive (Record.Store.entries_passive _)) fun entries => ?_
  rcases h entries with ⟨entries', he⟩ | he <;> rw [he]
  · exact Record.Store.replace_confined isRecordName.file entries'
  · exact .pure _

/-- Putting a secret into a vault that is in order returns and leaves it so. -/
theorem put_of_holds (g : Ground machine folder place)
    (w : Record.Writable machine place fileName) (holds : Record.Holds machine place fileName entries)
    {service : Text} (joined : service.IsJoined) (account secret : Text) :
    ∃ after, ((Backend.ofVault (.inFolder folder)).put service account secret).exec machine =
        (.ok (), after) ∧ Record.Touched place fileName machine after ∧
      Record.Holds after place fileName (entries.put service
        (.obj (((accountsIn entries service).getD []).put account.rejoin (.str secret.rejoin)))) := by
  have regular := holds.isRegular
  have accounts := isRegular_accounts regular service
  obtain ⟨inner, levels⟩ := Json.exists_room_of_obj accounts.fits
  have within : (Json.obj (((accountsIn entries service).getD []).put account
      (.str secret))).fits Runtime.reads = true := by
    rw [levels] at accounts ⊢
    rw [Json.fits_put accounts.fits, Json.fits_str]
  have back := (Json.reread_put regular service _).trans
    (by rw [Json.reread_put (levels ▸ accounts) account (.str secret),
      Text.rejoin_of_isJoined joined])
  obtain ⟨after, he, rest⟩ := Record.Store.replace_of_fits g isRecordName w
    (by rwa [Json.fits_put regular.fits])
    (Json.isCanonical_put regular.canonical service
      (Json.isCanonical_put accounts.canonical account rfl)) back
  exact ⟨after, (Action.exec_bind_ok (Record.Store.entries_exec g isRecordName.file holds)).trans he,
    rest⟩

/-- Removing a secret from a vault that is in order returns and leaves it so; the file is written
only when the secret was there. -/
theorem remove_of_holds (g : Ground machine folder place)
    (w : Record.Writable machine place fileName) (holds : Record.Holds machine place fileName entries)
    (service account : Text) :
    ∃ after, ((Backend.ofVault (.inFolder folder)).remove service account).exec machine =
        (.ok (), after) ∧ Stirred place machine after ∧
      HoldsLedger place after ((ledgerOf entries).remove service account) := by
  have read := Record.Store.entries_exec g isRecordName.file holds
  have still : Stirred place machine machine := ⟨.refl _, w⟩
  cases ha : accountsIn entries service with
  | none =>
    refine ⟨_, (Action.exec_bind_ok read).trans (by rw [ha]; rfl), still, entries, holds, ?_⟩
    exact (ledgerOf_of_accountsIn_eq_none ha account).symm
  | some accounts =>
    by_cases there : accounts.has account = true
    · obtain ⟨after, he, touched, written⟩ := Record.Store.replace_of_regular g isRecordName w
        (isRegular_remove holds.isRegular ha account)
      refine ⟨after, (Action.exec_bind_ok read).trans ?_, .of_touched touched, _, written,
        ledgerOf_remove ha account⟩
      simp only [ha]
      rw [if_pos there]
      exact he
    · refine ⟨_, (Action.exec_bind_ok read).trans ?_, still, entries, holds,
        (ledgerOf_of_absent ha (by simpa using there)).symm⟩
      simp only [ha]
      rw [if_neg there]
      rfl

theorem keeps (folder : Path) (place : Location) :
    (Backend.ofVault (.inFolder folder)).Keeps folder place (HoldsLedger place) where
  same h vault keychain := by
    obtain ⟨entries, holds, told⟩ := h
    exact ⟨entries, holds.of_under vault, told⟩
  get? g h service account := by
    obtain ⟨entries, holds, rfl⟩ := h
    have read := Record.Store.entries_exec g isRecordName.file holds
    exact ⟨_, (Action.exec_bind_ok read).trans rfl, .refl _⟩
  put g w h service account joined secret := by
    obtain ⟨entries, holds, rfl⟩ := h
    obtain ⟨after, he, touched, written⟩ := put_of_holds g w holds joined.1 account secret
    rw [Text.rejoin_of_isJoined joined.2] at written
    exact ⟨secret.rejoin, after, he, .of_touched touched,
      ⟨_, written, ledgerOf_put entries service account secret.rejoin⟩, Text.rejoin_of_isJoined⟩
  remove g w h service account := by
    obtain ⟨entries, holds, rfl⟩ := h
    exact remove_of_holds g w holds service account
  put_yields g service account secret joined := by
    refine .bind (Record.Store.entries_yields g isRecordName.file) fun entries between looked => ?_
    obtain ⟨heq, quiet⟩ := looked
    have regular : (Json.obj entries).IsRegular (Runtime.reads + 1) :=
      heq ▸ Record.isRegular_entriesAt _ place fileName
    have whole := regular.put joined.1 ((isRegular_accounts regular service).putText joined.2.1
      joined.2.2)
    refine (Record.Store.replace_yields (g.of_quiet quiet) isRecordName.file whole).mono ?_
    intro _ after wrote
    have some_left : Record.entriesAt after place fileName ≠ [] := by
      rw [wrote.entries]
      exact Assoc.put_ne_nil _ _ _
    refine ⟨_, ⟨_, Record.holds_entriesAt some_left, rfl⟩, ?_⟩
    rw [wrote.entries, ledgerOf_put, Ledger.put_self]
  put_confined service account secret := entries_bind_confined _ fun entries => Or.inl ⟨_, rfl⟩
  remove_confined service account := by
    refine entries_bind_confined _ fun entries => ?_
    split
    · exact Or.inr rfl
    · split_ifs
      · exact Or.inl ⟨_, rfl⟩
      · exact Or.inr rfl

end Vault

namespace Backend

variable {folder : Path} {place : Location}

/-- That the keychain has the secrets of a ledger. -/
def HoldsLedger (machine : Machine) (ledger : Ledger) : Prop :=
  ∀ service account, machine.keychain.value? (service, account) = ledger service account

theorem value?_put (keychain : Keychain) {ledger : Ledger}
    (h : ∀ service account, keychain.value? (service, account) = ledger service account)
    (service account secret s a : Text) :
    (keychain.put (service, account) secret).value? (s, a) =
      ledger.put service account secret s a := by
  rw [Assoc.value?_put, Ledger.put, h]
  by_cases hs : s = service ∧ a = account
  · rw [if_pos hs, if_pos (by rw [hs.1, hs.2])]
  · rw [if_neg hs, if_neg fun heq => hs ⟨(Prod.mk.inj heq).1.symm, (Prod.mk.inj heq).2.symm⟩]

theorem value?_remove (keychain : Keychain) {ledger : Ledger}
    (h : ∀ service account, keychain.value? (service, account) = ledger service account)
    (service account s a : Text) :
    (keychain.remove (service, account)).value? (s, a) = ledger.remove service account s a := by
  rw [Assoc.value?_remove, Ledger.remove, h]
  by_cases hs : s = service ∧ a = account
  · rw [if_pos hs, if_pos (by rw [hs.1, hs.2])]
  · rw [if_neg hs, if_neg fun heq => hs ⟨(Prod.mk.inj heq).1.symm, (Prod.mk.inj heq).2.symm⟩]

theorem forgetOnPlatform_exec (service account : Text) (machine : Machine) :
    ∃ after, (forgetOnPlatform service account).exec machine = (.ok (), after) ∧
      after.tree = machine.tree ∧ after.keychain = machine.keychain.remove (service, account) := by
  let asked := machine.answer (.keychainDelete service account)
  have note (wasThere : Bool) (before : Machine) :
      ∃ after, (if !wasThere then Action.log .debug .vault "No keychain entry to delete"
        else pure () : Action Unit).exec before = (.ok (), after) ∧
        after.belongings = before.belongings := by
    cases wasThere <;> exact ⟨_, rfl, rfl⟩
  obtain ⟨after, he, same⟩ := note asked.1 asked.2
  exact ⟨after, he, congrArg Prod.fst same, congrArg Prod.snd same⟩

theorem platform_keeps (folder : Path) (place : Location) :
    platform.Keeps folder place HoldsLedger where
  same h _ keychain := by
    intro service account
    rw [keychain]
    exact h service account
  get? g h service account := ⟨_, congrArg (Prod.mk · _) (congrArg _ (h service account)), .refl _⟩
  put g w h service account joined secret :=
    ⟨secret, _, rfl, .of_tree w rfl, fun s a => value?_put _ h service account secret s a,
      fun _ => rfl⟩
  remove g w h service account := by
    obtain ⟨after, he, tree, keychain⟩ := forgetOnPlatform_exec service account _
    refine ⟨after, he, .of_tree w tree, fun s a => ?_⟩
    rw [keychain]
    exact value?_remove _ h service account s a
  put_yields g service account secret joined := by
    refine .of_exec rfl fun _ _ => ⟨_, fun _ _ => rfl, ?_⟩
    exact Assoc.value?_put_self _ _ _
  put_confined service account secret := fun machine _ => .of_tree rfl
  remove_confined service account := fun machine _ => by
    obtain ⟨after, he, tree, -⟩ := forgetOnPlatform_exec service account machine
    have hm : ((forgetOnPlatform service account).exec machine).2 = after := congrArg Prod.snd he
    exact .of_tree ((congrArg Machine.tree hm).trans tree)

end Backend

end SessionKeeper.Secret
