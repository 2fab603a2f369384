import SessionKeeper.Record.Store

/-!
# The vault

The vault keeps secrets in a private record file: an object of accounts for each
service. Anything else that stands there counts as no accounts at all.
-/
namespace SessionKeeper.Secret

variable [Runtime]

/-- A vault, known by its store. -/
structure Vault where
  store : Record.Store
deriving DecidableEq, Repr

namespace Vault

def fileName : String := ".credentials"

def inFolder (folder : Path) : Vault := ⟨⟨folder.child fileName⟩⟩

def accountsIn (entries : Assoc Text Json) (service : Text) : Option (Assoc Text Json) :=
  (entries.value? service).bind Json.members?

def get? (vault : Vault) (service account : Text) : Action (Option Text) := do
  let entries ← vault.store.entries
  return (accountsIn entries service).bind fun accounts =>
    (accounts.value? account).bind Json.text?

def put (vault : Vault) (service account secret : Text) : Action Unit := do
  let entries ← vault.store.entries
  let accounts := (accountsIn entries service).getD []
  vault.store.replace (entries.put service (.obj (accounts.put account (.str secret))))

/-- Forgets the secret of an account, and the service with its last account. -/
def remove (vault : Vault) (service account : Text) : Action Unit := do
  let entries ← vault.store.entries
  match accountsIn entries service with
  | none => pure ()
  | some accounts =>
    if accounts.has account then
      let left := accounts.remove account
      vault.store.replace
        (if left.isEmpty then entries.remove service else entries.put service (.obj left))

def accounts (vault : Vault) (service : Text) : Action (List Text) := do
  let entries ← vault.store.entries
  return Text.sorted ((accountsIn entries service).getD []).keys

end Vault
end SessionKeeper.Secret
