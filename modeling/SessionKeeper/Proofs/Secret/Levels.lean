import SessionKeeper.Proofs.Record.Filters
import SessionKeeper.Proofs.Record.Served
import SessionKeeper.Proofs.Secret.Ledger
import SessionKeeper.Proofs.Text.Order

/-!
# The vault is a map of two levels

Whatever stands in the file of a vault, as long as it is read to its end, the vault may be asked for
secrets, given some and made to forget some. The secret last given to an account is the one it has,
no other account notices, and nothing under another service is touched. Forgetting what is not there
leaves the file alone, and what is no object of accounts is only replaced when one is needed. A
vault that starts without a file has no service without accounts, and a file as long as it has a
secret. What is to be kept must be joined text: a leading surrogate and the trailing one right after
it are one character once they were in a file.

Accounts are told in the order of their code points.
-/
namespace SessionKeeper.Secret.Vault

variable {start machine after : Machine} {folder : Path} {name : String}
  {entries : Assoc Text Json}

abbrev named (folder : Path) (name : String) : Vault := ⟨⟨folder.child name⟩⟩

section

variable [Runtime]

/-- What the vault answers when it is asked for the secret of an account. -/
def answer (vault : Vault) (machine : Machine) (service account : Text) :
    Except Failure (Option Text) :=
  ((vault.get? service account).exec machine).1

/-- That the answers for all accounts but one are the same, and whatever stands under the other
services. -/
structure Spares (vault : Vault) (service account : Text) (before after : Machine) : Prop where
  others : ∀ s a, (s, a) ≠ (service, account) → vault.answer after s a = vault.answer before s a
  services : ∀ s, s ≠ service →
    (vault.store.entriesOn after).value? s = (vault.store.entriesOn before).value? s

open Record.Store (Serves)

/-- Asking for a secret gives what the entries tell. -/
theorem get?_exec (h : Serves folder name machine) (service account : Text) :
    ∃ after, ((named folder name).get? service account).exec machine =
        (.ok (ledgerOf ((named folder name).store.entriesOn machine) service account), after) ∧
      machine.Quiet after := by
  obtain ⟨after, he, quiet⟩ := h.legible.entries_exec
  exact ⟨after, (Action.exec_bind_ok he).trans rfl, quiet⟩

theorem answer_eq (h : Serves folder name machine) (service account : Text) :
    (named folder name).answer machine service account =
      .ok (ledgerOf ((named folder name).store.entriesOn machine) service account) := by
  obtain ⟨after, he, -⟩ := get?_exec h service account
  exact congrArg Prod.fst he

theorem accounts_exec (h : Serves folder name machine) (service : Text) :
    ∃ after, ((named folder name).accounts service).exec machine =
        (.ok (Text.sorted ((accountsIn ((named folder name).store.entriesOn machine) service).getD
          []).keys), after) ∧ machine.Quiet after := by
  obtain ⟨after, he, quiet⟩ := h.legible.entries_exec
  exact ⟨after, (Action.exec_bind_ok he).trans rfl, quiet⟩

def entriesWith (entries : Assoc Text Json) (service account secret : Text) : Assoc Text Json :=
  entries.put service (.obj (((accountsIn entries service).getD []).put account (.str secret)))

def entriesWithout (entries accounts : Assoc Text Json) (service account : Text) :
    Assoc Text Json :=
  if (accounts.remove account).isEmpty then entries.remove service
  else entries.put service (.obj (accounts.remove account))

/-- What is said of a vault's entries after it was served. -/
structure Left (folder : Path) (name : String) (entries : Assoc Text Json) (after : Machine) :
    Prop where
  serves : Serves folder name after
  told : (named folder name).store.entriesOn after = entries
  there : (named folder name).store.IsThere after ↔ entries ≠ []

theorem put_exec (h : Serves folder name machine) (down : name ≠ "..") {service account secret : Text}
    (joined : service.IsJoined ∧ account.IsJoined ∧ secret.IsJoined) :
    ∃ after, ((named folder name).put service account secret).exec machine = (.ok (), after) ∧
      Left folder name (entriesWith ((named folder name).store.entriesOn machine) service account
        secret) after := by
  obtain ⟨between, read, quiet⟩ := h.legible.entries_exec
  have regular := Record.Store.isRegular_entriesOn (named folder name).store machine
  have whole := regular.put joined.1 ((isRegular_accounts regular service).putText joined.2.1
    joined.2.2)
  have some_left (none_left : entriesWith ((named folder name).store.entriesOn machine) service
      account secret = []) : (named folder name).store.IsThere between :=
    absurd none_left (Assoc.put_ne_nil _ _ _)
  obtain ⟨after, replaced, serves, told, there⟩ :=
    (h.of_quiet quiet).replace_exec down whole some_left
  exact ⟨after, (Action.exec_bind_ok read).trans replaced, serves, told, there⟩

theorem remove_exec (h : Serves folder name machine) (down : name ≠ "..") {service account : Text}
    {accounts : Assoc Text Json}
    (ha : accountsIn ((named folder name).store.entriesOn machine) service = some accounts)
    (has : accounts.has account = true) :
    ∃ after, ((named folder name).remove service account).exec machine = (.ok (), after) ∧
      Left folder name (entriesWithout ((named folder name).store.entriesOn machine) accounts
        service account) after := by
  obtain ⟨between, read, quiet⟩ := h.legible.entries_exec
  have regular := Record.Store.isRegular_entriesOn (named folder name).store machine
  have there : (named folder name).store.IsThere machine := by
    refine Record.Store.isThere_of_entriesOn_ne_nil fun none_there => ?_
    rw [none_there] at ha
    nomatch ha
  obtain ⟨after, replaced, serves, told, there⟩ := (h.of_quiet quiet).replace_exec down
    (isRegular_remove regular ha account)
    fun _ => (Record.Store.IsThere.iff_of_quiet quiet).mpr there
  refine ⟨after, (Action.exec_bind_ok read).trans ?_, serves, told, there⟩
  simp only [ha]
  rw [if_pos has]
  exact replaced

/-- Forgetting an account that is not there only looks. -/
theorem remove_exec_absent (h : Serves folder name machine) {service account : Text}
    (absent : (accountsIn ((named folder name).store.entriesOn machine) service).bind
      (·.value? account) = none) :
    ∃ after, ((named folder name).remove service account).exec machine = (.ok (), after) ∧
      machine.Quiet after := by
  obtain ⟨after, read, quiet⟩ := h.legible.entries_exec
  refine ⟨after, (Action.exec_bind_ok read).trans ?_, quiet⟩
  cases ha : accountsIn ((named folder name).store.entriesOn machine) service with
  | none => rfl
  | some accounts =>
    rw [ha, Option.bind_some] at absent
    have has : ¬ accounts.has account = true := by
      rw [Assoc.has, absent]
      exact Bool.false_ne_true
    dsimp only
    rw [if_neg has]
    rfl

theorem Left.answer_eq (h : Left folder name entries after) (service account : Text) :
    (named folder name).answer after service account = .ok (ledgerOf entries service account) := by
  rw [Vault.answer_eq h.serves, h.told]

/-- What changed one account in the ledger and what stands under one service spared the rest. -/
theorem Left.spares (h : Left folder name entries after) (serves : Serves folder name machine)
    {service account : Text}
    (others : ∀ s a, (s, a) ≠ (service, account) → ledgerOf entries s a =
      ledgerOf ((named folder name).store.entriesOn machine) s a)
    (services : ∀ s, s ≠ service → entries.value? s =
      ((named folder name).store.entriesOn machine).value? s) :
    Spares (named folder name) service account machine after where
  others s a hne := by rw [h.answer_eq, Vault.answer_eq serves, others s a hne]
  services s hne := by rw [h.told, services s hne]

omit [Runtime] in
theorem value?_entriesWith (entries : Assoc Text Json) {service s : Text} (hne : s ≠ service)
    (account secret : Text) :
    (entriesWith entries service account secret).value? s = entries.value? s := by
  rw [entriesWith, Assoc.value?_put, if_neg hne.symm]

omit [Runtime] in
theorem value?_entriesWithout (entries accounts : Assoc Text Json) {service s : Text}
    (hne : s ≠ service) (account : Text) :
    (entriesWithout entries accounts service account).value? s = entries.value? s := by
  rw [entriesWithout]
  split_ifs
  · rw [Assoc.value?_remove, if_neg hne.symm]
  · rw [Assoc.value?_put, if_neg hne.symm]

/-- An account that was given a secret has it, and nothing else has changed. -/
theorem put_spares (h : Serves folder name machine) (down : name ≠ "..")
    {service account secret : Text}
    (joined : service.IsJoined ∧ account.IsJoined ∧ secret.IsJoined) :
    ∃ after, ((named folder name).put service account secret).exec machine = (.ok (), after) ∧
      (named folder name).answer after service account = .ok (some secret) ∧
      Spares (named folder name) service account machine after := by
  obtain ⟨after, he, left⟩ := put_exec h down joined
  have ledger := ledgerOf_put ((named folder name).store.entriesOn machine) service account secret
  refine ⟨after, he, ?_, left.spares h (fun s a hne => ?_) fun s hne => ?_⟩
  · rw [left.answer_eq, entriesWith, ledger, Ledger.put_self]
  · rw [entriesWith, ledger, Ledger.put, if_neg fun both => hne (Prod.ext both.1 both.2)]
  · exact value?_entriesWith _ hne account secret

/-- An account that was forgotten has no secret, and nothing else has changed. -/
theorem remove_spares (h : Serves folder name machine) (down : name ≠ "..")
    (service account : Text) :
    ∃ after, ((named folder name).remove service account).exec machine = (.ok (), after) ∧
      (named folder name).answer after service account = .ok none ∧
      Spares (named folder name) service account machine after := by
  cases ha : (accountsIn ((named folder name).store.entriesOn machine) service).bind
      (·.value? account) with
  | none =>
    obtain ⟨after, he, quiet⟩ := remove_exec_absent h ha
    have same := (named folder name).store.entriesOn_of_quiet quiet
    have told (s a : Text) : (named folder name).answer after s a =
        (named folder name).answer machine s a := by
      rw [answer_eq (h.of_quiet quiet), answer_eq h, same]
    refine ⟨after, he, ?_, fun s a _ => told s a, fun s _ => by rw [same]⟩
    rw [told, answer_eq h, ledgerOf]
    cases found : accountsIn ((named folder name).store.entriesOn machine) service with
    | none => rfl
    | some accounts =>
      rw [found, Option.bind_some] at ha
      simp only [Option.bind_some, ha]
      rfl
  | some value =>
    obtain ⟨accounts, found, stands⟩ := Option.bind_eq_some_iff.mp ha
    obtain ⟨after, he, left⟩ := remove_exec h down found (by rw [Assoc.has, stands]; rfl)
    have ledger := ledgerOf_remove found account
    refine ⟨after, he, ?_, left.spares h (fun s a hne => ?_) fun s hne => ?_⟩
    · rw [left.answer_eq, entriesWithout, ledger, Ledger.remove_self]
    · rw [entriesWithout, ledger, Ledger.remove, if_neg fun both => hne (Prod.ext both.1 both.2)]
    · exact value?_entriesWithout _ accounts hne account

/-- That every service has accounts, and each account a secret. -/
def IsTidy (entries : Assoc Text Json) : Prop :=
  ∀ m ∈ entries, ∃ accounts : Assoc Text Json, m.2 = .obj accounts ∧ accounts ≠ [] ∧
    ∀ a ∈ accounts, ∃ secret, a.2 = .str secret

omit [Runtime] in
theorem IsTidy.accountsIn (h : IsTidy entries) (service : Text) :
    ∀ a ∈ (accountsIn entries service).getD [], ∃ secret, a.2 = Json.str secret := by
  intro a ha
  rw [Vault.accountsIn] at ha
  cases hv : entries.value? service with
  | none =>
    rw [hv] at ha
    cases ha
  | some value =>
    obtain ⟨accounts, rfl, -, secrets⟩ := h _ (Assoc.mem_of_value? hv)
    rw [hv] at ha
    exact secrets a ha

theorem IsTidy.with (h : IsTidy entries)
    (regular : (Json.obj entries).IsRegular (Runtime.reads + 1)) (service account secret : Text) :
    IsTidy (entriesWith entries service account secret) := by
  intro m hm
  rcases Assoc.mem_put ((Json.isRegular_obj _).mp regular).1 _ _ m hm with rfl | ⟨hm, -⟩
  · refine ⟨_, rfl, Assoc.put_ne_nil _ _ _, fun a ha => ?_⟩
    have inner := ((Json.isPlain_obj _).mp (isRegular_accounts regular service).plain).1
    rcases Assoc.mem_put inner _ _ a ha with rfl | ⟨ha, -⟩
    · exact ⟨secret, rfl⟩
    · exact h.accountsIn service a ha
  · exact h m hm

theorem IsTidy.without (h : IsTidy entries)
    (regular : (Json.obj entries).IsRegular (Runtime.reads + 1)) {accounts : Assoc Text Json}
    {service : Text} (found : Vault.accountsIn entries service = some accounts) (account : Text) :
    IsTidy (entriesWithout entries accounts service account) := by
  intro m hm
  rw [entriesWithout] at hm
  split_ifs at hm with last
  · exact h m (Assoc.mem_remove hm)
  · rcases Assoc.mem_put ((Json.isRegular_obj _).mp regular).1 _ _ m hm with rfl | ⟨hm, -⟩
    · refine ⟨_, rfl, by simpa using last, fun a ha => ?_⟩
      have secrets := h.accountsIn service
      rw [found] at secrets
      exact secrets a (Assoc.mem_remove ha)
    · exact h m hm

omit [Runtime] in
/-- Where every service has accounts with secrets, there is a secret as soon as there is an
entry. -/
theorem IsTidy.ne_nil_iff (h : IsTidy entries) :
    entries ≠ [] ↔ ∃ service account secret, ledgerOf entries service account = some secret := by
  constructor
  · intro hne
    obtain ⟨⟨service, value⟩, rest, rfl⟩ := List.exists_cons_of_ne_nil hne
    obtain ⟨accounts, rfl, some_account, secrets⟩ := h (service, value) List.mem_cons_self
    obtain ⟨⟨account, value⟩, more, rfl⟩ := List.exists_cons_of_ne_nil some_account
    obtain ⟨secret, rfl⟩ := secrets (account, value) List.mem_cons_self
    refine ⟨service, account, secret, ?_⟩
    simp [ledgerOf, Vault.accountsIn, Json.members?, Json.text?]
  · rintro ⟨service, account, secret, told⟩ rfl
    cases told

/-- What can be asked of a vault. -/
inductive Operation where
  | put (service account secret : Text)
  | get (service account : Text)
  | remove (service account : Text)
  | accounts (service : Text)

/-- Whether what is to be kept has no leading surrogate directly before a trailing one. -/
def Operation.IsJoined : Operation → Prop
  | .put service account secret => service.IsJoined ∧ account.IsJoined ∧ secret.IsJoined
  | _ => True

/-- Does with a vault what was asked, whatever it answers. -/
def perform (vault : Vault) : Operation → Action Unit
  | .put service account secret => vault.put service account secret
  | .get service account => do let _ ← vault.get? service account
  | .remove service account => vault.remove service account
  | .accounts service => do let _ ← vault.accounts service

/-- The machines that a run of operations on a vault reaches. -/
inductive Run (vault : Vault) (start : Machine) : Machine → Prop where
  | start : Run vault start start
  | perform {machine after : Machine} {outcome : Except Failure Unit} (run : Run vault start machine)
      (operation : Operation) (joined : operation.IsJoined)
      (executed : (vault.perform operation).exec machine = (outcome, after)) : Run vault start after

/-- What holds of a vault in every state that a run reaches, and what else if it started without
a file. -/
structure Kept (folder : Path) (name : String) (start machine : Machine) : Prop where
  serves : Serves folder name machine
  tidy : ¬ (named folder name).store.IsThere start →
    IsTidy ((named folder name).store.entriesOn machine)
  there : ¬ (named folder name).store.IsThere start →
    ((named folder name).store.IsThere machine ↔ (named folder name).store.entriesOn machine ≠ [])

theorem Kept.of_quiet (h : Kept folder name start machine) (quiet : machine.Quiet after) :
    Kept folder name start after where
  serves := h.serves.of_quiet quiet
  tidy := by
    rw [Record.Store.entriesOn_of_quiet _ quiet]
    exact h.tidy
  there := by
    rw [Record.Store.entriesOn_of_quiet _ quiet, Record.Store.IsThere.iff_of_quiet quiet]
    exact h.there

theorem Kept.of_left (left : Left folder name entries after)
    (tidy : ¬ (named folder name).store.IsThere start → IsTidy entries) :
    Kept folder name start after where
  serves := left.serves
  tidy := by
    rw [left.told]
    exact tidy
  there _ := by
    rw [left.told]
    exact left.there

theorem Kept.perform (h : Kept folder name start machine) (down : name ≠ "..")
    (operation : Operation) (joined : operation.IsJoined) :
    ∃ after, ((named folder name).perform operation).exec machine = (.ok (), after) ∧
      Kept folder name start after := by
  have regular := Record.Store.isRegular_entriesOn (named folder name).store machine
  cases operation with
  | put service account secret =>
    obtain ⟨after, he, left⟩ := put_exec h.serves down joined
    exact ⟨after, he, .of_left left fun absent => (h.tidy absent).with regular _ _ _⟩
  | get service account =>
    obtain ⟨after, he, quiet⟩ := get?_exec h.serves service account
    exact ⟨after, (Action.exec_bind_ok he).trans rfl, h.of_quiet quiet⟩
  | remove service account =>
    cases ha : (accountsIn ((named folder name).store.entriesOn machine) service).bind
        (·.value? account) with
    | none =>
      obtain ⟨after, he, quiet⟩ := remove_exec_absent h.serves ha
      exact ⟨after, he, h.of_quiet quiet⟩
    | some value =>
      obtain ⟨accounts, found, stands⟩ := Option.bind_eq_some_iff.mp ha
      obtain ⟨after, he, left⟩ := remove_exec h.serves down found (by rw [Assoc.has, stands]; rfl)
      exact ⟨after, he, .of_left left fun absent => (h.tidy absent).without regular found account⟩
  | accounts service =>
    obtain ⟨after, he, quiet⟩ := accounts_exec h.serves service
    exact ⟨after, (Action.exec_bind_ok he).trans rfl, h.of_quiet quiet⟩

theorem kept_of_run (serves : Serves folder name start) (down : name ≠ "..")
    (run : Run (named folder name) start machine) : Kept folder name start machine := by
  induction run with
  | start =>
    have empty (absent : ¬ (named folder name).store.IsThere start) :
        (named folder name).store.entriesOn start = [] := by
      by_contra hne
      exact absent (Record.Store.isThere_of_entriesOn_ne_nil hne)
    refine ⟨serves, fun absent => ?_, fun absent => ?_⟩
    · rw [empty absent]
      exact nofun
    · exact iff_of_false absent fun hne => hne (empty absent)
  | perform run operation joined executed ih =>
    obtain ⟨after, he, kept⟩ := ih.perform down operation joined
    rw [executed] at he
    obtain ⟨-, rfl⟩ := Prod.mk.inj he
    exact kept

end

open scoped SessionKeeper.Runtime

/-- A leading and a trailing surrogate that stand for one character. -/
def splitPair : Text := [.surrogate 0x3D, .surrogate 0x600]

/-- A service that is mapped to more levels than are read. -/
def deepEntries : Assoc Text Json := [("svc", .nested 1000)]

def deepMachine : Machine :=
  Ground.withFile .bare ["home"] fileName Record.privateMode (Record.octetsIn (.obj deepEntries))

theorem deepMachine_stops : ∃ nesting,
    Record.Reads (named ⟨"/", ["home"]⟩ fileName).store.path deepMachine
      (.error (.beyond (.levels nesting))) := by
  have regular : (Json.obj deepEntries).IsRegular 1001 := by
    refine (Json.isRegular_obj deepEntries).mpr ⟨List.nodup_singleton _, ?_⟩
    rw [deepEntries, List.forall_mem_singleton]
    exact ⟨Text.isJoined_ofString _, Json.isPlain_nested 1000, Json.fits_nested.mpr le_rfl⟩
  have deep : (Json.obj deepEntries).fits (Runtime.reads + 1) = false := by
    rw [Bool.eq_false_iff, ne_eq, Json.fits_obj, deepEntries, List.forall_mem_singleton,
      Json.fits_nested]
    decide
  exact Record.reads_withFile_of_not_fits Machine.ground_bare isRecordName.file
    (Machine.under_bare _) regular deep

end SessionKeeper.Secret.Vault
