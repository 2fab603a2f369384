import SessionKeeper.Record.Store
import SessionKeeper.Time.IsoReader

/-!
# Expiring stores

The values of an expiring store are objects that carry the time they were stored. An
entry is live until more time than the store's lifetime has passed; one whose time
cannot be read never is. `isLive` is the one test behind every way of reading, and
`judge` is what stops it where the clock has no offset.
-/
namespace SessionKeeper.Record

variable [Runtime]

/-- A store whose entries expire. -/
structure Expiring where
  store : Store
  lifetime : Duration
deriving DecidableEq, Repr

namespace Expiring

/-- The member that holds the time of storing. -/
def stampName : Text := "stored_at"

/-- When a value was stored, if it says so. A time without an offset is universal. -/
def stampOf? (value : Json) : Option Moment := do
  let text ← (← value.member? stampName).text?
  return (← IsoReader.read? text).assumeUniversal

def isLive (lifetime : Duration) (now : Moment) (value : Json) : Bool :=
  match stampOf? value with
  | some stamp => now.universalMicros - stamp.universalMicros ≤ lifetime.micros
  | none => false

/-- Whether a value can be told live or expired at a time. A time of storing has an offset, given
or assumed, so a clock without one cannot be compared with it. -/
def isComparable (now : Moment) (value : Json) : Bool :=
  now.offset.isSome || (stampOf? value).isNone

/-- Goes on if the clock can tell which of these values are live. -/
def judge (now : Moment) (values : List Json) : Action Unit :=
  if values.all (isComparable now) then pure () else throw (.incomparable .subtract)

/-- A value as it was given, without the time of storing. -/
def strip : Json → Json
  | .obj members => .obj (Assoc.remove members stampName)
  | other => other

/-- The members of a value together with the time of storing. -/
def stamp (now : Moment) (members : Assoc Text Json) : Json :=
  .obj (members.put stampName (.str now.isoText))

def liveOf (lifetime : Duration) (now : Moment) (entries : Assoc Text Json) : Assoc Text Json :=
  entries.filter fun (_, value) => isLive lifetime now value

/-- All live entries as they were given; the file stays as it is. -/
def entries (store : Expiring) : Action (Assoc Text Json) := do
  let now ← Action.now
  let entries ← store.store.entries
  judge now (entries.map Prod.snd)
  return (liveOf store.lifetime now entries).map fun (key, value) => (key, strip value)

/-- The live value of a key. An expired one is dropped from the file. -/
def get? (store : Expiring) (key : Text) : Action (Option Json) := do
  match ← store.store.get? key with
  | none => return none
  | some .null => return none
  | some value =>
    let now ← Action.now
    judge now [value]
    if isLive store.lifetime now value then return some (strip value)
    else
      Action.log .debug .records "Dropping expired entry"
      store.store.remove key
      return none

/-- Gives a key a value, which has to be an object, and drops all expired entries. -/
def put (store : Expiring) (key : Text) (value : Json) : Action Unit := do
  match value with
  | .obj members =>
    let now ← Action.now
    let entries ← store.store.entries
    judge now (entries.map Prod.snd)
    store.store.replace ((liveOf store.lifetime now entries).put key (stamp now members))
  | _ => throw .notAnObject

/-- Takes a key out, expired or not. -/
def remove (store : Expiring) (key : Text) : Action Unit := store.store.remove key

end Expiring
end SessionKeeper.Record
