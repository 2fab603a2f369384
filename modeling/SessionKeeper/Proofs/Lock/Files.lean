import SessionKeeper.Lock.Basic
import SessionKeeper.Proofs.Record.Store
import SessionKeeper.Proofs.Script.Ends

/-!
# What locks do to files

Taking a lock and giving it back work on one marker file. Whatever stands there and
however the operation ends, no other file is touched and the keychain is left alone.
-/
namespace SessionKeeper

variable [Runtime]

namespace Lock

variable {folder : Path} {place : Location} {lock : Lock} {name : String}

theorem readMarkerAt_passive (path : Path) : (readMarkerAt path).IsPassive := by
  refine (Record.read_passive path).bind fun content => ?_
  split
  · split
    · exact .pure _
    · exact (Action.IsPassive.log _ _ _).bind fun _ => .pure _
  · exact .pure _

omit [Runtime] in
theorem ageOf_passive (marker : Marker) (now : Moment) : (ageOf marker now).IsPassive := by
  rw [ageOf]
  split
  · exact .pure _
  · exact .throw _

theorem refuse_passive {α : Type} (key : Text) (path : Path) :
    (refuse key path : Action α).IsPassive := by
  refine (readMarkerAt_passive path).bind fun found => ?_
  split
  · exact Action.IsPassive.now.bind fun now => (ageOf_passive _ now).bind fun _ => .throw _
  · exact .throw _

omit [Runtime] in
theorem reclaim_passive (lock : Lock) (key : Text) (now : Moment) (existing : Marker) :
    (lock.reclaim key now existing).IsPassive := by
  refine (ageOf_passive existing now).bind fun age => ?_
  split
  · exact (Action.Keeps.throw _).bind fun _ => Action.IsPassive.log _ _ _
  · exact Action.IsPassive.log _ _ _

omit [Runtime] in
theorem isOccupied_passive (path : Path) : (Folder.isOccupied path).IsPassive := by
  refine (Action.IsPassive.probe path).bind fun kind => ?_
  split
  · exact .pure _
  · exact .pure _
  · exact .pure _
  · exact .throw _

theorem create_confined (hf : lock.folder = folder) (down : name ≠ "..") (marker : Marker) :
    (lock.create (folder.child name) marker).Confined folder place (· = name) := by
  intro machine g
  have he := g.ensure_exec
  rw [← hf] at he
  rw [Lock.create, Action.exec_bind_ok he]
  by_cases long : Tree.isTooLong name = true
  · have hc : machine.answer (.createFile (folder.child name) Record.privateMode) =
        (.error .nameTooLong, machine) := g.create_long down long _
    rw [Action.exec_ask_bind hc]
    exact .refl machine
  have hc : machine.answer (.createFile (folder.child name) Record.privateMode) = _ :=
    g.create_child ⟨down, Bool.eq_false_iff.mpr long⟩ Record.privateMode
  cases hu : machine.under place name with
  | some node =>
    rw [hu] at hc
    rw [Action.exec_ask_bind hc]
    exact .of_tree ((refuse_passive marker.key _).tree machine)
  | none =>
    rw [hu] at hc
    rw [Action.exec_ask_bind hc]
    dsimp only
    split
    · rename_i content _
      exact Ground.changedOnly_of_node (fun _ h => nomatch hu ▸ h)
        (Ground.node?_filled g.numbered place name (Tree.masked Record.privateMode) content)
    · exact Ground.changedOnly_withFile name _ [] hu

/-- Goes on unless the marker that was found is fresh. -/
def pass (lock : Lock) (key : Text) (now : Moment) : Option Marker → Action Unit
  | some existing => lock.reclaim key now existing
  | none => pure ()

/-- Whether something stands in the way: the marker that was found, or anything else. -/
def isBlocked (path : Path) (existing : Option Marker) : Action Bool :=
  if existing.isSome then pure true else Folder.isOccupied path

def clearWay (path : Path) (existing : Option Marker) : Action Unit := do
  if ← isBlocked path existing then
    let _ ← Record.removeFile path

/-- Taking a lock step by step: what stands there is read, judged by the clock and removed, and
then the marker is created. -/
theorem acquire_eq {key : Text} {path : Path} (hp : lock.markerPath key = pure path) :
    lock.acquire key = readMarkerAt path >>= fun existing => Action.now >>= fun now =>
      lock.pass key now existing >>= fun _ => clearWay path existing >>= fun _ =>
        lock.create path ⟨key, now, lock.holder⟩ >>= fun _ =>
          Action.log .debug .lock "Acquired lock" >>= fun _ => pure ⟨key, now, lock.holder⟩ := by
  rw [acquire, hp, pure_bind]
  congr 1
  funext existing
  congr 1
  funext now
  cases existing with
  | some marker =>
    simp only [pass, clearWay, isBlocked, Option.isSome_some, if_true, pure_bind, bind_assoc]
  | none =>
    simp only [pass, clearWay, isBlocked, Option.isSome_none, pure_bind, bind_assoc,
      Bool.false_eq_true, if_false]
    congr 1
    funext occupied
    cases occupied with
    | true => simp only [if_true, bind_assoc, pure_bind]
    | false => simp only [Bool.false_eq_true, if_false, pure_bind]

omit [Runtime] in
theorem pass_passive (lock : Lock) (key : Text) (now : Moment) (existing : Option Marker) :
    (lock.pass key now existing).IsPassive := by
  cases existing with
  | none => exact .pure _
  | some marker => exact reclaim_passive lock key now marker

omit [Runtime] in
theorem isBlocked_passive (path : Path) (existing : Option Marker) :
    (isBlocked path existing).IsPassive := by
  rw [isBlocked]
  split
  · exact .pure _
  · exact isOccupied_passive path

omit [Runtime] in
theorem clearWay_confined (hn : Tree.IsFileName name) (existing : Option Marker) :
    (clearWay (folder.child name) existing).Confined folder place (· = name) := by
  refine Action.Confined.bind (.of_passive (isBlocked_passive _ existing)) fun occupied => ?_
  split
  · exact (Record.removeFile_confined hn).bind fun _ => .pure _
  · exact .pure _

omit [Runtime] in
theorem markerPath_eq (hf : lock.folder = folder) {key : Text} (hk : fileName? key = some name) :
    lock.markerPath key = pure (folder.child name) := by
  rw [markerPath, hk, hf]

/-- Taking a lock touches at most its marker file. -/
theorem acquire_confined (hf : lock.folder = folder) {key : Text} (hk : fileName? key = some name)
    (hn : Tree.IsFileName name) : (lock.acquire key).Confined folder place (· = name) := by
  rw [acquire_eq (markerPath_eq hf hk)]
  refine .bind (.of_passive (readMarkerAt_passive _)) fun existing => ?_
  refine .bind (.of_passive .now) fun now => ?_
  refine .bind (.of_passive (pass_passive lock key now existing)) fun _ => ?_
  refine .bind (clearWay_confined hn existing) fun _ => ?_
  refine .bind (create_confined hf hn.down _) fun _ => ?_
  exact .bind (.of_passive (.log _ _ _)) fun _ => .pure _

/-- The marker that taking a lock gives is that of its key, of the time and of the process. -/
theorem marker_of_acquire (hf : lock.folder = folder) {key : Text}
    (hk : fileName? key = some name) {machine after : Machine} {marker : Marker}
    (h : (lock.acquire key).exec machine = (.ok marker, after)) :
    marker = ⟨key, machine.now, lock.holder⟩ := by
  have ends : (lock.acquire key).Ends machine fun outcome _ =>
      ∀ marker, outcome = .ok marker → marker = ⟨key, machine.now, lock.holder⟩ := by
    have any {α : Type} {x : Action α} {machine : Machine} : x.Ends machine fun _ _ => True := trivial
    rw [acquire_eq (markerPath_eq hf hk)]
    refine .bind (P := fun _ between => between.now = machine.now)
      (Machine.SameCircumstances.of_exec _ machine).now (fun existing between same => ?_)
      fun _ _ _ => nofun
    refine .bind (P := fun outcome _ => outcome = .ok machine.now)
      (.of_exec (Action.exec_now between) (by rw [same])) (fun now _ told => ?_) fun _ _ _ => nofun
    obtain rfl := Except.ok.inj told
    refine .bind any (fun _ _ _ => ?_) fun _ _ _ => nofun
    refine .bind any (fun _ _ _ => ?_) fun _ _ _ => nofun
    refine .bind any (fun _ _ _ => ?_) fun _ _ _ => nofun
    refine .bind any (fun _ _ _ => ?_) fun _ _ _ => nofun
    rintro _ ⟨⟩
    rfl
  unfold Action.Ends at ends
  rw [h] at ends
  exact ends marker rfl

theorem key_of_acquire (hf : lock.folder = folder) {key : Text} (hk : fileName? key = some name)
    {machine after : Machine} {marker : Marker}
    (h : (lock.acquire key).exec machine = (.ok marker, after)) : marker.key = key :=
  congrArg Marker.key (marker_of_acquire hf hk h)

/-- Whether what was found in place of a marker is somebody else's. -/
def isReclaimed (marker : Marker) : Option Marker → Bool
  | some current => !current.sameHolding marker
  | none => false

/-- Removes a marker unless it is somebody else's by now. -/
def giveBack (path : Path) (reclaimed : Bool) : Action Unit := do
  if reclaimed then
    Action.log .warning .lock "Lock was reclaimed by another process; leaving its marker in place"
  else
    match ← Action.ask (.unlink path) with
    | .ok () => Action.log .debug .lock "Released lock"
    | .error .absent => Action.log .debug .lock "Released lock"
    | .error _ => Action.log .debug .lock "Could not remove lock marker"

/-- Giving a lock back step by step: what stands there decides whether it is removed. -/
theorem release_eq {marker : Marker} {path : Path} (hp : lock.markerPath marker.key = pure path) :
    lock.release marker = readMarkerAt path >>= fun current =>
      giveBack path (isReclaimed marker current) := by
  rw [release, hp, pure_bind]
  congr 1

/-- Giving a lock back touches at most its marker file. -/
theorem release_confined (hf : lock.folder = folder) {marker : Marker}
    (hk : fileName? marker.key = some name) (hn : Tree.IsFileName name) :
    (lock.release marker).Confined folder place (· = name) := by
  rw [release_eq (markerPath_eq hf hk)]
  refine .bind (.of_passive (readMarkerAt_passive _)) fun current => ?_
  rw [giveBack]
  split
  · exact .of_passive (.log _ _ _)
  · refine .bind (Ground.unlink_confined hn) fun result => ?_
    split <;> exact .of_passive (.log _ _ _)

end Lock

end SessionKeeper
