import SessionKeeper.Secret.Vault

/-!
# Secret backends

A backend keeps secrets by service and account. It is the vault in a file or the
keychain of the platform, and the rest of the program does not see which.
-/
namespace SessionKeeper.Secret

variable [Runtime]

inductive Kind where
  | vault
  | keychain
deriving DecidableEq, Repr

/-- A place for secrets. -/
structure Backend where
  kind : Kind
  get? : (service account : Text) → Action (Option Text)
  put : (service account secret : Text) → Action Unit
  remove : (service account : Text) → Action Unit

namespace Backend

def ofVault (vault : Vault) : Backend where
  kind := .vault
  get? := vault.get?
  put := vault.put
  remove := vault.remove

/-- Forgets a secret of the platform; that it is not there is only noted. -/
def forgetOnPlatform (service account : Text) : Action Unit := do
  let wasThere : Bool ← Action.ask (.keychainDelete service account)
  if !wasThere then
    Action.log .debug .vault "No keychain entry to delete"

def platform : Backend where
  kind := .keychain
  get? service account := Action.ask (.keychainGet service account)
  put service account secret := Action.ask (.keychainSet service account secret)
  remove := forgetOnPlatform

/-- The keychain of the platform, if it has a real one. -/
def platform? : Action (Option Backend) := do
  let isThere : Bool ← Action.ask .hasKeychain
  return if isThere then some platform else none

/-- The backend for a folder: an explicit one, else the platform's where it is wanted and
there, else the vault in the folder. -/
def resolve (folder : Path) (explicit : Option Backend) (usePlatform : Bool) : Action Backend := do
  match explicit with
  | some backend => return backend
  | none =>
    let found ← if usePlatform then platform? else pure none
    match found with
    | some backend =>
      Action.log .debug .vault "Using platform keychain"
      return backend
    | none =>
      Action.log .debug .vault "Using file credential vault"
      return ofVault (.inFolder folder)

end Backend
end SessionKeeper.Secret
