import SessionKeeper.Proofs.Lock.Files

/-!
# The requests of a lock

Taken request by request, an operation on a lock is in one of a few shapes. It may only look
at files. It may still seek the lock, and returns it only after it has created the marker
file. It may fill the marker file it has created, and then returns the lock. Or it gives the
lock back, which removes the marker file once at most.
-/
namespace SessionKeeper

def Request.isLook (folder : Path) : Request → Bool
  | .readFile _ => true
  | .probe _ => true
  | .makeDirectory path _ => path = folder
  | .clock => true
  | .emit _ => true
  | _ => false

namespace Request

variable {folder : Path} {place : Location} {machine : Machine} {request : Request}

theorem tree_of_isLook (h : request.isLook folder = true) (g : Ground machine folder place) :
    (machine.answer request).2.tree = machine.tree := by
  cases request with
  | makeDirectory path mode =>
    have hp : path = folder := by simpa [isLook] using h
    rw [hp, g.answer_makeDirectory]
  | readFile path => rfl
  | probe path => rfl
  | clock => rfl
  | emit output => rfl
  | _ => simp [isLook] at h

end Request

namespace Script

variable {α β : Type} {folder : Path} {place : Location} {name : String} {key : Text}

/-- A script that only looks at files while the folder is there. -/
inductive Looks (folder : Path) (place : Location) : Script α → Prop where
  | done (a : α) : Looks folder place (.done a)
  | ask (request : Request) (next : request.Answer → Script α)
      (look : request.isLook folder = true)
      (rest : ∀ machine, Ground machine folder place →
        Looks folder place (next (machine.answer request).1)) :
      Looks folder place (.ask request next)

/-- A script that fills the file it has created and then returns the lock of a key. -/
inductive Fills (folder : Path) (place : Location) (key : Text) (number : Nat) :
    Script (Except Failure Lock.Marker) → Prop where
  | taken (marker : Lock.Marker) (own : marker.key = key) :
      Fills folder place key number (.done (.ok marker))
  | write (content : Octets) (next : Unit → Script (Except Failure Lock.Marker))
      (rest : Fills folder place key number (next ())) :
      Fills folder place key number (.ask (.writeFile number content) next)
  | look (request : Request) (next : request.Answer → Script (Except Failure Lock.Marker))
      (look : request.isLook folder = true)
      (rest : ∀ machine, Ground machine folder place →
        Fills folder place key number (next (machine.answer request).1)) :
      Fills folder place key number (.ask request next)

/-- That a script returns the lock when it runs alone where nothing stands under the name. -/
def Succeeds (folder : Path) (place : Location) (name : String)
    (script : Script (Except Failure Lock.Marker)) : Prop :=
  ∀ machine, Ground machine folder place → machine.under place name = none →
    ∃ marker, (script.run machine).1 = .ok marker

/-- A script that has not created the marker file so far. After a removal it only has to
create the file. -/
inductive Seeks (folder : Path) (place : Location) (name : String) (key : Text) :
    Script (Except Failure Lock.Marker) → Prop where
  | fail (failure : Failure) : Seeks folder place name key (.done (.error failure))
  | create (mode : Nat) (next : Except FileFault Nat → Script (Except Failure Lock.Marker))
      (refused : ∀ fault, Seeks folder place name key (next (.error fault)))
      (made : ∀ number, Fills folder place key number (next (.ok number))) :
      Seeks folder place name key (.ask (.createFile (folder.child name) mode) next)
  | unlink (next : Except FileFault Unit → Script (Except Failure Lock.Marker))
      (rest : ∀ answer, Seeks folder place name key (next answer))
      (succeeds : Succeeds folder place name (next (.ok ()))) :
      Seeks folder place name key (.ask (.unlink (folder.child name)) next)
  | look (request : Request) (next : request.Answer → Script (Except Failure Lock.Marker))
      (look : request.isLook folder = true)
      (rest : ∀ machine, Ground machine folder place →
        Seeks folder place name key (next (machine.answer request).1)) :
      Seeks folder place name key (.ask request next)

/-- A script that may still remove the marker file, once. -/
inductive Leaves (folder : Path) (place : Location) (name : String) :
    Script (Except Failure Unit) → Prop where
  | done (outcome : Except Failure Unit) : Leaves folder place name (.done outcome)
  | unlink (next : Except FileFault Unit → Script (Except Failure Unit))
      (rest : ∀ answer, Looks folder place (next answer)) :
      Leaves folder place name (.ask (.unlink (folder.child name)) next)
  | look (request : Request) (next : request.Answer → Script (Except Failure Unit))
      (look : request.isLook folder = true)
      (rest : ∀ machine, Ground machine folder place →
        Leaves folder place name (next (machine.answer request).1)) :
      Leaves folder place name (.ask request next)

namespace Looks

theorem bind {x : Script α} {f : α → Script β} (hx : x.Looks folder place)
    (hf : ∀ a, (f a).Looks folder place) : (x.bind f).Looks folder place := by
  induction hx with
  | done a => exact hf a
  | ask request next look rest ih => exact .ask request _ look ih

theorem bind_seeks {x : Script α} {f : α → Script (Except Failure Lock.Marker)}
    (hx : x.Looks folder place) (hf : ∀ a, (f a).Seeks folder place name key) :
    (x.bind f).Seeks folder place name key := by
  induction hx with
  | done a => exact hf a
  | ask request next look rest ih => exact .look request _ look ih

theorem bind_leaves {x : Script α} {f : α → Script (Except Failure Unit)}
    (hx : x.Looks folder place) (hf : ∀ a, (f a).Leaves folder place name) :
    (x.bind f).Leaves folder place name := by
  induction hx with
  | done a => exact hf a
  | ask request next look rest ih => exact .look request _ look ih

theorem leaves {x : Script (Except Failure Unit)} (hx : x.Looks folder place) :
    x.Leaves folder place name := by
  induction hx with
  | done a => exact .done a
  | ask request next look rest ih => exact .look request _ look ih

end Looks

end Script

/-- That an operation only looks at files while the folder is there. -/
def Action.Looks {α : Type} (folder : Path) (place : Location) (action : Action α) : Prop :=
  action.run.Looks folder place

/-- That an operation seeks a lock it has not created the marker file of. -/
def Action.Seeks (folder : Path) (place : Location) (name : String) (key : Text)
    (action : Action Lock.Marker) : Prop := action.run.Seeks folder place name key

/-- That an operation gives a lock back. -/
def Action.Leaves (folder : Path) (place : Location) (name : String) (action : Action Unit) :
    Prop := action.run.Leaves folder place name

namespace Action.Looks

variable {α β : Type} {folder : Path} {place : Location} {name : String} {key : Text}

theorem pure (a : α) : (Pure.pure a : Action α).Looks folder place := .done _

theorem throw (failure : Failure) : (MonadExcept.throw failure : Action α).Looks folder place :=
  .done _

theorem ask {request : Request} (h : request.isLook folder = true) :
    (Action.ask request).Looks folder place :=
  Script.Looks.ask request _ h fun _ _ => .done _

theorem log (level : Level) (channel : Channel) (message : String) :
    (Action.log level channel message).Looks folder place := ask rfl

/-- A sequence looks when its parts do. -/
theorem bind {x : Action α} {f : α → Action β} (hx : x.Looks folder place)
    (hf : ∀ a, (f a).Looks folder place) : (x >>= f).Looks folder place := by
  refine Script.Looks.bind hx fun outcome => ?_
  cases outcome with
  | ok a => exact hf a
  | error failure => exact .done _

theorem bind_seeks {x : Action α} {f : α → Action Lock.Marker} (hx : x.Looks folder place)
    (hf : ∀ a, (f a).Seeks folder place name key) : (x >>= f).Seeks folder place name key := by
  refine Script.Looks.bind_seeks hx fun outcome => ?_
  cases outcome with
  | ok a => exact hf a
  | error failure => exact .fail _

/-- A look before an operation that gives a lock back. -/
theorem bind_leaves {x : Action α} {f : α → Action Unit} (hx : x.Looks folder place)
    (hf : ∀ a, (f a).Leaves folder place name) : (x >>= f).Leaves folder place name := by
  refine Script.Looks.bind_leaves hx fun outcome => ?_
  cases outcome with
  | ok a => exact hf a
  | error failure => exact .done _

end Action.Looks

theorem Folder.ensure_looks {folder : Path} {place : Location} :
    (Folder.ensure folder).Looks folder place := by
  have accept : (Folder.accept folder .present).Looks folder place := by
    refine .bind (.bind (.ask rfl) fun kind => ?_) fun isThere => ?_
    · split
      · exact .pure _
      · exact .pure _
      · exact .pure _
      · exact .throw _
    · split
      · exact .pure _
      · exact .throw _
  rw [Folder.ensure, Folder.makeWithin.eq_def]
  refine Script.Looks.ask _ _ (by simp [Request.isLook]) fun machine g => ?_
  rw [g.answer_makeDirectory]
  exact accept

variable [Runtime]

theorem Record.read_looks {folder : Path} {place : Location} (path : Path) :
    (Record.read path).Looks folder place := by
  refine .bind (.ask rfl) fun content => ?_
  split
  · exact .pure _
  · exact .bind (.log _ _ _) fun _ => .pure _
  · split
    · exact .throw _
    · exact .bind (.log _ _ _) fun _ => .pure _
    · exact .pure _

namespace Lock

variable {folder : Path} {place : Location} {lock : Lock} {name : String} {key : Text}
  {machine : Machine}

theorem readMarkerAt_looks (path : Path) : (readMarkerAt path).Looks folder place := by
  refine .bind (Record.read_looks path) fun content => ?_
  split
  · split
    · exact .pure _
    · exact .bind (.log _ _ _) fun _ => .pure _
  · exact .pure _

omit [Runtime] in
theorem ageOf_looks (marker : Marker) (now : Moment) : (ageOf marker now).Looks folder place := by
  rw [ageOf]
  split
  · exact .pure _
  · exact .throw _

theorem refuse_looks {α : Type} (key : Text) (path : Path) :
    (refuse key path : Action α).Looks folder place := by
  refine .bind (readMarkerAt_looks path) fun found => ?_
  split
  · exact .bind (.ask rfl) fun now => .bind (ageOf_looks _ now) fun _ => .throw _
  · exact .throw _

omit [Runtime] in
theorem pass_looks (lock : Lock) (key : Text) (now : Moment) (existing : Option Marker) :
    (lock.pass key now existing).Looks folder place := by
  cases existing with
  | none => exact .pure _
  | some marker =>
    refine .bind (ageOf_looks marker now) fun age => ?_
    split
    · exact .bind (.throw _) fun _ => .log _ _ _
    · exact .log _ _ _

omit [Runtime] in
theorem isBlocked_looks (path : Path) (existing : Option Marker) :
    (isBlocked path existing).Looks folder place := by
  rw [isBlocked]
  split
  · exact .pure _
  · refine .bind (.ask rfl) fun kind => ?_
    split
    · exact .pure _
    · exact .pure _
    · exact .pure _
    · exact .throw _

theorem create_exec (hf : lock.folder = folder) (g : Ground machine folder place)
    (hn : Tree.IsFileName name) (free : machine.under place name = none) {marker : Marker}
    {content : Octets} (printed : Record.octetsOf marker.toJson = .ok content) :
    ∃ after, (lock.create (folder.child name) marker).exec machine = (.ok (), after) ∧
      ChangedOnly place (· = name) machine after ∧
      after.under place name =
        some (.file machine.tree.nextNumber (Tree.masked Record.privateMode) content) ∧
      after.keychain = machine.keychain := by
  have he := g.ensure_exec
  rw [← hf] at he
  have make : machine.answer (.createFile (folder.child name) Record.privateMode) =
      (.ok machine.tree.nextNumber,
        Ground.withFile machine place name (Tree.masked Record.privateMode) []) := by
    have h := g.create_child hn Record.privateMode
    rw [free] at h
    exact h
  obtain ⟨after, fill, only, stands, keys⟩ :=
    g.answer_fill free (Tree.masked Record.privateMode) content
  refine ⟨after, ?_, only, stands, keys⟩
  rw [Lock.create, Action.exec_bind_ok he, Action.exec_ask_bind make]
  dsimp only
  rw [printed]
  show (Action.ask (.writeFile machine.tree.nextNumber content)).exec _ = _
  rw [Action.exec_ask, fill]
  rfl

/-- The end of taking a lock: the marker is created. -/
def finish (lock : Lock) (path : Path) (marker : Marker) : Action Marker := do
  lock.create path marker
  Action.log .debug .lock "Acquired lock"
  return marker

theorem finish_succeeds (hf : lock.folder = folder) (hn : Tree.IsFileName name) {marker : Marker}
    {content : Octets} (printed : Record.octetsOf marker.toJson = .ok content) :
    (lock.finish (folder.child name) marker).run.Succeeds folder place name := by
  intro machine g free
  obtain ⟨after, he, -⟩ := create_exec hf g hn free printed
  refine ⟨marker, ?_⟩
  show ((lock.finish (folder.child name) marker).exec machine).1 = _
  rw [finish, Action.exec_bind_ok he]
  rfl

theorem refuse_bind {α β : Type} (key : Text) (path : Path) (f : α → Action β) :
    (refuse key path : Action α) >>= f = (refuse key path : Action β) := by
  have stop (failure : Failure) : (throw failure : Action α) >>= f = throw failure := rfl
  rw [refuse, refuse, bind_assoc]
  congr 1
  funext found
  cases found with
  | none => exact stop _
  | some raced => simp only [bind_assoc, stop]

theorem refuse_seeks (other : Text) (path : Path) :
    (refuse other path : Action Marker).Seeks folder place name key := by
  refine Action.Looks.bind_seeks (readMarkerAt_looks path) fun found => ?_
  split
  · refine Action.Looks.bind_seeks (.ask rfl) fun now => ?_
    exact Action.Looks.bind_seeks (ageOf_looks _ now) fun _ => Script.Seeks.fail _
  · exact Script.Seeks.fail _

theorem finish_seeks (hf : lock.folder = folder) {marker : Marker} (own : marker.key = key)
    {content : Octets} (printed : Record.octetsOf marker.toJson = .ok content) :
    (lock.finish (folder.child name) marker).Seeks folder place name key := by
  have ensure : (Folder.ensure lock.folder).Looks folder place := hf ▸ Folder.ensure_looks
  rw [finish, Lock.create, bind_assoc]
  refine ensure.bind_seeks fun _ => ?_
  rw [bind_assoc]
  refine Script.Seeks.create _ _ (fun fault => ?_) fun number => ?_
  · cases fault
    case present =>
      have h := refuse_bind marker.key (folder.child name) fun (_ : Unit) =>
        Action.log .debug .lock "Acquired lock" >>= fun _ => (pure marker : Action Marker)
      have seeks : (refuse marker.key (folder.child name) : Action Marker).Seeks folder place name key :=
        refuse_seeks _ _
      rw [← h] at seeks
      exact seeks
    all_goals exact Script.Seeks.fail _
  · have fills : Script.Fills folder place key number ((Action.ask (.writeFile number content) >>=
        fun _ => Action.log .debug .lock "Acquired lock" >>= fun _ => pure marker :
          Action Marker).run) :=
      .write content _ (.look (.emit _) _ rfl fun _ _ => .taken marker own)
    rw [printed]
    exact fills

/-- Once the way is clear a lock that is sought is created. -/
theorem acquire_seeks (hf : lock.folder = folder) (hn : Tree.IsFileName name)
    (hk : fileName? key = some name)
    (printed : ∀ now, ∃ content,
      Record.octetsOf (Marker.toJson ⟨key, now, lock.holder⟩) = .ok content) :
    (lock.acquire key).Seeks folder place name key := by
  rw [acquire_eq (markerPath_eq hf hk)]
  refine (readMarkerAt_looks _).bind_seeks fun existing => ?_
  refine Action.Looks.bind_seeks (.ask rfl) fun now => ?_
  refine (pass_looks lock key now existing).bind_seeks fun _ => ?_
  obtain ⟨content, hc⟩ := printed now
  have seeks : (lock.finish (folder.child name) ⟨key, now, lock.holder⟩).Seeks folder place name key :=
    finish_seeks hf rfl hc
  have succeeds : (lock.finish (folder.child name) ⟨key, now, lock.holder⟩).run.Succeeds folder place
      name := finish_succeeds hf hn hc
  rw [clearWay, bind_assoc]
  refine (isBlocked_looks _ existing).bind_seeks fun occupied => ?_
  cases occupied with
  | false => exact seeks
  | true =>
    refine Script.Seeks.unlink _ (fun answer => ?_) ?_
    · rcases answer with fault | _
      · cases fault
        case absent => exact seeks
        all_goals exact Script.Seeks.fail _
      · exact seeks
    · exact succeeds

/-- Giving a lock back removes the marker file at most once. -/
theorem release_leaves (hf : lock.folder = folder) {marker : Marker}
    (hk : fileName? marker.key = some name) : (lock.release marker).Leaves folder place name := by
  rw [release_eq (markerPath_eq hf hk)]
  refine (readMarkerAt_looks _).bind_leaves fun current => ?_
  rw [giveBack]
  split
  · exact Action.Looks.bind_leaves (.log _ _ _) fun _ => Script.Leaves.done _
  · refine Script.Leaves.unlink _ fun answer => ?_
    rcases answer with fault | _
    · cases fault <;> exact Action.Looks.log _ _ _
    · exact Action.Looks.log _ _ _

end Lock

end SessionKeeper
