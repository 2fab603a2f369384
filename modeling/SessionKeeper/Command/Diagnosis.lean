import SessionKeeper.Command.Account

/-!
# Commands for diagnosis

The commands that show what stands in the folder: lock markers, sessions and
authorizations under way. Only the removal of stale markers changes anything.
Failures are not explained here; they go through.
-/
namespace SessionKeeper.Command

variable [Runtime]

/-- A command that looks into the folder. -/
inductive Diagnosis where
  | locks
  | pruneLocks
  | sessions
  | states
deriving DecidableEq, Repr

def diagnosisProgram : Program where
  name := "roomy_diag.py"
  description := "Roomy CLI diagnostics"
  version := none
  entries := [
    ⟨"locks", "List lock markers with their age", [], .nothing⟩,
    ⟨"prune-locks", "Delete stale or unreadable lock markers", [], .nothing⟩,
    ⟨"sessions", "Show the session index and workers", [], .nothing⟩,
    ⟨"states", "Count pending OAuth states", [], .nothing⟩]

namespace Diagnosis

def ofName (name : String) : Diagnosis :=
  if name = "locks" then .locks
  else if name = "prune-locks" then .pruneLocks
  else if name = "sessions" then .sessions
  else .states

/-- The row about a marker file. One that cannot be read counts as stale. -/
def lockRow (lock : Lock) (now : Moment) (path : Path) (marker : Option Lock.Marker) :
    Action Json := do
  let file := Json.ofString path.name
  match marker with
  | none =>
    return .obj [("file", file), ("key", .null), ("pid", .null), ("age_seconds", .null),
      ("stale", .bool true)]
  | some marker =>
    let age ← Lock.ageOf marker now
    return .obj [("file", file), ("key", .str marker.key), ("pid", .int marker.holder),
      ("age_seconds", .float (age.seconds.roundPlaces 3)), ("stale", .bool (← lock.isStale marker))]

/-- The rows about all marker files. -/
def lockRows (lock : Lock) : Action Json := do
  let now ← Action.now
  let markers ← lock.markers
  return .arr (← markers.mapM fun (path, marker) => lockRow lock now path marker)

/-- Removes a marker file if it is stale or cannot be read; the result is its name, if it was
removed. -/
def pruneLock (lock : Lock) (path : Path) (marker : Option Lock.Marker) :
    Action (Option String) := do
  let isUseless ← match marker with
    | none => pure true
    | some marker => lock.isStale marker
  if isUseless then
    let _ ← Record.removeFile path
    return some path.name
  else return none

/-- Removes all marker files that are stale or cannot be read. -/
def pruneAll (lock : Lock) : Action Json := do
  let markers ← lock.markers
  let removed ← markers.mapM fun (path, marker) => pruneLock lock path marker
  return .obj [("removed", .arr (removed.filterMap fun name => name.map Json.ofString))]

/-- The session index as it is stored, and the registered workers. -/
def sessionReport (keeper : Keeper) : Action Json := do
  let content ← keeper.index.load
  let workers ← keeper.listWorkers
  return .obj [("status", .ofString content.status.name),
    ("sessions", .arr (content.entries.map Prod.snd)),
    ("workers", .arr (workers.map Worker.publicRecord))]

/-- How many authorizations are under way, and how many of them have expired. -/
def stateReport (store : Record.Expiring) : Action Json := do
  let content ← store.store.load
  let live ← store.entries
  let count (n : Nat) : Json := .int n
  return .obj [("status", .ofString content.status.name),
    ("stored", count content.entries.length), ("live", count live.length),
    ("expired", .int ((content.entries.length : Int) - live.length)),
    ("ttl_seconds", .float store.lifetime.seconds)]

/-- What a command finds out. -/
def examine (keeper : Keeper) : Diagnosis → Action Json
  | .locks => lockRows keeper.lock
  | .pruneLocks => pruneAll keeper.lock
  | .sessions => sessionReport keeper
  | .states => stateReport keeper.stores.states

end Diagnosis

/-- Runs the program on a command line; the result is the exit code. -/
def runDiagnosis (words : List Text) : Action Nat := do
  match diagnosisProgram.read words with
  | .error ending =>
    Action.ask (.emit (.print ending.output))
    Action.ask (.emit (.printError ending.errorOutput))
    return ending.code
  | .ok none =>
    Action.ask (.emit (.print diagnosisProgram.form.help))
    return 0
  | .ok (some (name, _)) =>
    let settings ← Settings.load
    let keeper ← Keeper.ofSettings settings OAuth.unavailable none
    Account.printDocument (← (Diagnosis.ofName name).examine keeper)
    return 0

end SessionKeeper.Command
