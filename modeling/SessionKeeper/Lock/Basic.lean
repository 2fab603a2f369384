import SessionKeeper.Lock.Marker
import SessionKeeper.Number.Order
import SessionKeeper.Record.Document
import SessionKeeper.Text.Percent

/-!
# Locks

A lock is a marker file in a folder. Taking it creates the file where none may
stand, and a marker that has become stale may be removed first. Nobody ever waits:
who finds a fresh marker, or loses the race to create one, is refused. Giving the
lock back removes the marker unless someone else has reclaimed it meanwhile.
-/
namespace SessionKeeper

variable [Runtime]

/-- The locks of a folder as one process uses them. -/
structure Lock where
  folder : Path
  staleAfter : Duration
  holder : Int
deriving DecidableEq, Repr

namespace Lock

def fileName? (key : Text) : Option String :=
  (Percent.encode? key).map fun spelled => "lock-" ++ spelled ++ ".json"

/-- The path of the marker file of a key. A key that UTF-8 cannot encode has none. -/
def markerPath (lock : Lock) (key : Text) : Action Path :=
  match fileName? key with
  | some name => return lock.folder.child name
  | none => throw (.unencodable (.utf8 key))

/-- Reads the marker at a path; a malformed one counts as none. -/
def readMarkerAt (path : Path) : Action (Option Marker) := do
  let content ← Record.read path
  match content.status with
  | .found =>
    match Marker.read (.obj content.entries) with
    | .ok marker => return some marker
    | .error _ =>
      Action.log .warning .lock "Ignoring malformed lock marker"
      return none
  | _ => return none

def readMarker (lock : Lock) (key : Text) : Action (Option Marker) := do
  readMarkerAt (← lock.markerPath key)

def isMarkerName (name : String) : Bool :=
  let cs := name.toList
  let start := "lock-".toList
  let stop := ".json".toList
  start.length + stop.length ≤ cs.length && start.isPrefixOf cs && stop.isSuffixOf cs

/-- The marker files of the folder in order, each with its marker when that is readable. -/
def markers (lock : Lock) : Action (List (Path × Option Marker)) := do
  if ← Folder.isThere lock.folder then
    let names ← Action.ofFile (← Action.ask (.listDirectory lock.folder))
    let sorted := (names.filter isMarkerName).mergeSort fun a b =>
      Text.precedes (Text.ofString a) (Text.ofString b)
    sorted.mapM fun name => do
      let path := lock.folder.child name
      return (path, ← readMarkerAt path)
  else return []

def ageOf (marker : Marker) (now : Moment) : Action Duration :=
  match marker.age? now with
  | some age => return age
  | none => throw (.incomparable .subtract)

/-- Whether an age is short of the time after which a marker is stale, both in seconds. -/
def isFreshAge (lock : Lock) (age : Duration) : Bool := age.seconds.lt lock.staleAfter.seconds

/-- Whether a marker is stale. -/
def isStale (lock : Lock) (marker : Marker) : Action Bool := do
  return !lock.isFreshAge (← ageOf marker (← Action.now))

/-- Refuses the lock and names the marker that stands in the way, if it can be read. -/
def refuse {α : Type} (key : Text) (path : Path) : Action α := do
  match ← readMarkerAt path with
  | some raced =>
    let age ← ageOf raced (← Action.now)
    throw (.lockHeld key (some raced.holder) (some age))
  | none => throw (.lockHeld key none none)

def create (lock : Lock) (path : Path) (marker : Marker) : Action Unit := do
  Folder.ensure lock.folder
  match ← Action.ask (.createFile path Record.privateMode) with
  | .error .present => refuse marker.key path
  | .error fault => throw (.file fault)
  | .ok number =>
    match Record.octetsOf marker.toJson with
    | .ok content => Action.ask (.writeFile number content)
    | .error limit => throw (.beyond limit)

/-- Refuses the lock while the marker that was found is fresh. -/
def reclaim (lock : Lock) (key : Text) (now : Moment) (existing : Marker) : Action Unit := do
  let age ← ageOf existing now
  if lock.isFreshAge age then throw (.lockHeld key (some existing.holder) (some age))
  Action.log .warning .lock "Reclaiming stale lock"

/-- Takes the lock of a key and gives the marker that was written. -/
def acquire (lock : Lock) (key : Text) : Action Marker := do
  let path ← lock.markerPath key
  let existing ← readMarkerAt path
  let now ← Action.now
  match existing with
  | some marker => lock.reclaim key now marker
  | none => pure ()
  let marker : Marker := ⟨key, now, lock.holder⟩
  let occupied ← if existing.isSome then pure true else Folder.isOccupied path
  if occupied then
    let _ ← Record.removeFile path
  lock.create path marker
  Action.log .debug .lock "Acquired lock"
  return marker

/-- Gives a lock back: its marker is removed unless it is someone else's by now. -/
def release (lock : Lock) (marker : Marker) : Action Unit := do
  let path ← lock.markerPath marker.key
  let reclaimed := match ← readMarkerAt path with
    | some current => !current.sameHolding marker
    | none => false
  if reclaimed then
    Action.log .warning .lock "Lock was reclaimed by another process; leaving its marker in place"
  else
    match ← Action.ask (.unlink path) with
    | .ok () => Action.log .debug .lock "Released lock"
    | .error .absent => Action.log .debug .lock "Released lock"
    | .error _ => Action.log .debug .lock "Could not remove lock marker"

/-- Runs a section while holding the lock of a key. The lock is given back whether the
section returns or fails, and its outcome is the outcome of the whole. -/
def holding {m : Type → Type} {ε : Type} [Monad m] [MonadLiftT Action m] [MonadExcept ε m]
    {α : Type} (lock : Lock) (key : Text) (body : m α) : m α := do
  let marker ← liftM (lock.acquire key)
  let outcome : Except ε α ← tryCatch (do return .ok (← body)) fun error => pure (.error error)
  liftM (lock.release marker)
  match outcome with
  | .ok a => return a
  | .error error => throw error

end Lock
end SessionKeeper
