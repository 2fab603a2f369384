import SessionKeeper.Keeper.Index

/-!
# Registered workers

Workers are listed by the time of their registration. Times with and without an
offset cannot be brought into one order.
-/
namespace SessionKeeper.Keeper

variable [Runtime]

def allComparable : List Moment → Bool
  | [] => true
  | first :: rest => rest.all fun m => m.comparable first

def registeredBefore (a b : Worker) : Bool :=
  a.created.universalMicros ≤ b.created.universalMicros

/-- The workers by the time of registration; those of the same time stay in order. -/
def oldestFirst (workers : List Worker) : Action (List Worker) :=
  if allComparable (workers.map Worker.created) then
    return workers.mergeSort registeredBefore
  else throw (.incomparable .compare)

/-- The registered workers without their secrets, oldest first. -/
def listWorkers (keeper : Keeper) : Action (List Worker) := do
  let now ← Action.now
  let entries ← keeper.workers.entries
  oldestFirst (← readAll (Worker.read now) "Skipping malformed worker record"
    (entries.map Prod.snd))

/-- The worker with this id or, if there is none, with this name; its secret included. -/
def getWorker (keeper : Keeper) (idOrName : Text) : Action (Option Worker) := do
  let workers ← keeper.listWorkers
  let found := (workers.find? fun worker => worker.id = idOrName).or
    (workers.find? fun worker => worker.name = idOrName)
  match found with
  | none => return none
  | some worker =>
    let secret ← keeper.secrets.get? keeper.workerService worker.id
    return some { worker with secret }

/-- Whether there is a record or else a secret of a worker. -/
def isRegistered (keeper : Keeper) (id : Text) : Action Bool := do
  let record ← keeper.workers.get? id
  if record.any fun value => !value.isNull then return true
  else return (← keeper.secrets.get? keeper.workerService id).isSome

/-- Removes a worker's record, its secret and its session; the result is whether there was
such a worker. -/
def removeWorker (keeper : Keeper) (id : Text) : Action Bool := do
  let existed ← keeper.lock.holding lockKey do
    let existed ← keeper.isRegistered id
    keeper.workers.remove id
    keeper.secrets.remove keeper.workerService id
    keeper.index.remove (Worker.subject id)
    return existed
  if existed then Action.log .info .session "Removed worker"
  return existed

end SessionKeeper.Keeper
