import SessionKeeper.Record.Document

/-!
# Record stores

A store keeps entries in one record file. Each operation reads the whole file and,
if it changes anything, writes the whole file back. The file only exists while there
are entries. Nothing is locked here.
-/
namespace SessionKeeper.Record

variable [Runtime]

/-- A store, known by its file. -/
structure Store where
  path : Path
deriving DecidableEq, Repr

namespace Store

/-- What the file holds. -/
def load (store : Store) : Action Content := read store.path

def entries (store : Store) : Action (Assoc Text Json) := do return (← store.load).entries

def get? (store : Store) (key : Text) : Action (Option Json) := do
  return (← store.entries).value? key

/-- Removes the file with all entries. -/
def clear (store : Store) : Action Unit := do
  if ← removeFile store.path then Action.log .debug .records "Cleared record file"

def replace (store : Store) (entries : Assoc Text Json) : Action Unit :=
  if entries.isEmpty then store.clear else write store.path (.obj entries)

def put (store : Store) (key : Text) (value : Json) : Action Unit := do
  store.replace ((← store.entries).put key value)

/-- Takes a key out; the file is not touched when the key is not there. -/
def remove (store : Store) (key : Text) : Action Unit := do
  let entries ← store.entries
  if entries.has key then store.replace (entries.remove key)

end Store
end SessionKeeper.Record
