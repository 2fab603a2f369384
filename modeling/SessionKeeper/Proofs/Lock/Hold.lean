import SessionKeeper.Proofs.Lock.Decision
import SessionKeeper.Proofs.Lock.Section

/-!
# Sections that do anything

A section under a lock may change the machine in any way before it ends: its files, its clock, the
markers of this lock and of other ones. It runs once if the lock was taken and not at all otherwise,
and what it ends with is what the whole ends with, unless it leaves a file in the place of the
marker that the return of the lock cannot read: the return stops where there are too many levels and
at an integer that is too long, on nothing else. Then the outcome of the section is lost and the
file stays. Otherwise the return removes the file at the path of the marker unless that tells a
marker of another holding. It touches nothing else.

Two markers are of the same holding when they agree on the holder and the time. A time is stored
with an offset of whole minutes, so the marker of a clock with a finer one is not the marker that
its file tells.
-/
namespace SessionKeeper

namespace Tree

variable {tree : Tree} {directory : Location} {path : Path}

theorem isFileName_of_locate {folder : Path} {name : String} {location : Location}
    (leads : tree.locate directory (folder.child name) = .ok location) (down : name ≠ "..") :
    IsFileName name := by
  refine ⟨down, ?_⟩
  have parts : (folder.child name).parts = folder.parts ++ [name] := rfl
  rw [locate, parts, walk_append] at leads
  obtain ⟨between, -, last⟩ := exists_of_bind_ok leads
  rw [walk] at last
  split at last
  · cases last
  · cases last
  · rw [if_neg down] at last
    split at last
    · cases last
    · rename_i short
      simpa using short

theorem find_remove {location : Location} {number mode : Nat} {content : Octets}
    (there : tree.find directory path = .ok (location, .file number mode content)) :
    (tree.remove location).find directory path = .error .absent := by
  obtain ⟨leads, stands⟩ := of_find there
  have below : location ≠ [] := by
    rintro rfl
    cases stands
  have directories (l : Location) (h : tree.isDirectory l = true) :
      (tree.remove location).isDirectory l = true := by
    rw [isDirectory_iff] at h ⊢
    obtain ⟨mode, hl⟩ := h
    by_cases root : l = []
    · exact root ▸ ⟨_, rfl⟩
    · refine ⟨mode, ?_⟩
      rw [node?_remove _ _ _ root, if_neg, hl]
      rintro rfl
      rw [stands] at hl
      cases hl
  have still : (tree.remove location).locate directory path = .ok location :=
    walk_of_directories directories _ _ _ leads
  have gone : (tree.remove location).node? location = none := by
    rw [node?_remove _ _ _ below, if_pos rfl]
  rw [find, still]
  simp only [bind, Except.bind, gone]
  rfl

end Tree

namespace Lock

section

variable [Runtime]

/-- That a file tells the marker of another holding. -/
def TellsOther (marker : Marker) (octets : Octets) : Prop :=
  ∃ members current, Record.Spells octets members ∧ Marker.read (.obj members) = .ok current ∧
    current.sameHolding marker = false

structure GivenBack (path : Path) (marker : Marker) (left after : Machine) : Prop where
  removed : ∀ octets, left.tree.read left.directory path = .ok octets →
    ¬ TellsOther marker octets → after.tree.find after.directory path = .error .absent
  kept : (∀ octets, left.tree.read left.directory path = .ok octets → TellsOther marker octets) →
    after.tree = left.tree
  others : ∀ location, left.tree.locate left.directory path ≠ .ok location →
    after.tree.node? location = left.tree.node? location
  keychain : after.keychain = left.keychain
  circumstances : left.SameCircumstances after

variable {lock : Lock} {key : Text} {name : String} {marker : Marker} {left : Machine}

/-- What nothing was done to is given back if there is no file or one of another holding. -/
theorem GivenBack.of_quiet {path : Path} {after : Machine} (quiet : left.Quiet after)
    (other : ∀ octets, left.tree.read left.directory path = .ok octets → TellsOther marker octets) :
    GivenBack path marker left after where
  removed octets stored own := absurd (other octets stored) own
  kept _ := quiet.tree
  others _ _ := by rw [quiet.tree]
  keychain := quiet.keychain
  circumstances := quiet.circumstances

theorem tellsOther_iff (marker : Marker) (octets : Octets) : TellsOther marker octets ↔
    ∃ current, found (.ok octets) = .ok (some current) ∧ current.sameHolding marker = false := by
  constructor
  · rintro ⟨members, current, spelled, told, other⟩
    exact ⟨current, found_eq_some.mpr ⟨members, spelled, told⟩, other⟩
  · rintro ⟨current, told, other⟩
    obtain ⟨members, spelled, read⟩ := found_eq_some.mp told
    exact ⟨members, current, spelled, read, other⟩

theorem exists_found (content : Except FileFault Octets)
    (whole : ∀ octets limit, content = .ok octets → ¬ Record.StopsAt octets limit) :
    ∃ current, found content = .ok current := by
  rcases told : found content with failure | current
  · obtain ⟨octets, limit, same, stops, -⟩ := found_eq_error.mp told
    exact absurd stops (whole octets limit same)
  · exact ⟨current, rfl⟩

/-- Removing what stands at a path, or finding that it cannot be removed. -/
theorem giveBack_exec (path : Path) (marker : Marker) (left : Machine)
    (own : ∀ octets, left.tree.read left.directory path = .ok octets → ¬ TellsOther marker octets) :
    ∃ after, (giveBack path false).exec left = (.ok (), after) ∧
      GivenBack path marker left after := by
  have asked : left.answer (.unlink path) = left.edit (left.tree.unlink left.directory path) := rfl
  rw [giveBack, if_neg (by simp)]
  cases there : left.tree.find left.directory path with
  | error fault =>
    have refused : left.answer (.unlink path) = (.error fault, left) := by
      rw [asked, Tree.unlink, there]
      rfl
    have unread : left.tree.read left.directory path = .error fault := by
      rw [Tree.read, there]
      rfl
    rw [Action.exec_ask_bind refused]
    refine ⟨_, Prod.ext ?_ rfl, .of_quiet (.of_passive ?_ left) fun octets stored => ?_⟩
    · cases fault <;> rfl
    · cases fault <;> exact .log _ _ _
    · rw [unread] at stored
      cases stored
  | ok standing =>
    obtain ⟨location, node⟩ := standing
    cases node with
    | directory mode =>
      have refused : left.answer (.unlink path) = (.error .isDirectory, left) := by
        rw [asked, Tree.unlink, there]
        rfl
      rw [Action.exec_ask_bind refused]
      refine ⟨_, rfl, .of_quiet (.of_passive (.log _ _ _) left) fun octets stored => ?_⟩
      rw [Tree.read, there] at stored
      cases stored
    | file number mode content =>
      have stored : left.tree.read left.directory path = .ok content := by
        rw [Tree.read, there]
        rfl
      have done : left.answer (.unlink path) =
          (.ok (), { left with tree := left.tree.remove location }) := by
        rw [asked, Tree.unlink, there]
        rfl
      rw [Action.exec_ask_bind done]
      refine ⟨_, rfl, fun _ _ _ => Tree.find_remove there, fun other => ?_, fun l apart => ?_, rfl,
        ⟨rfl, rfl, rfl, rfl, rfl, rfl, rfl⟩⟩
      · exact absurd (other content stored) (own content stored)
      · show (left.tree.remove location).node? l = left.tree.node? l
        by_cases root : l = []
        · rw [root, Tree.node?_root, Tree.node?_root]
        · rw [Tree.node?_remove _ _ _ root, if_neg]
          rintro rfl
          exact apart (Tree.locate_of_find there)

theorem GivenBack.after_quiet {path : Path} {between after : Machine} (quiet : left.Quiet between)
    (back : GivenBack path marker between after) : GivenBack path marker left after where
  removed octets stored := by
    rw [← quiet.tree, ← quiet.circumstances.directory] at stored
    exact back.removed octets stored
  kept other := by
    rw [← quiet.tree, ← quiet.circumstances.directory] at other
    rw [back.kept other, quiet.tree]
  others location apart := by
    rw [← quiet.tree, ← quiet.circumstances.directory] at apart
    rw [back.others location apart, quiet.tree]
  keychain := back.keychain.trans quiet.keychain
  circumstances := quiet.circumstances.trans back.circumstances

/-- The return of a lock never fails where the file can be read, whatever else is there. -/
theorem release_exec (named : fileName? marker.key = some name)
    (whole : ∀ octets limit, left.tree.read left.directory (lock.folder.child name) = .ok octets →
      ¬ Record.StopsAt octets limit) :
    ∃ after, (lock.release marker).exec left = (.ok (), after) ∧
      GivenBack (lock.folder.child name) marker left after := by
  obtain ⟨current, told⟩ := exists_found _ whole
  obtain ⟨between, read, quiet⟩ := readMarkerAt_exec (lock.folder.child name) left
  rw [told] at read
  rw [release_eq (markerPath_eq rfl named), Action.exec_bind_ok read]
  have other (octets : Octets)
      (stored : left.tree.read left.directory (lock.folder.child name) = .ok octets) :
      TellsOther marker octets ↔ isReclaimed marker current = true := by
    rw [stored] at told
    rw [tellsOther_iff, told]
    cases current with
    | none => simp [isReclaimed]
    | some current => simp [isReclaimed]
  cases reclaimed : isReclaimed marker current with
  | true =>
    refine ⟨_, rfl, .of_quiet (quiet.trans (.of_passive (.log _ _ _) between)) ?_⟩
    exact fun octets stored => (other octets stored).mpr reclaimed
  | false =>
    obtain ⟨after, done, back⟩ := giveBack_exec (lock.folder.child name) marker between
      fun octets stored => by
        rw [quiet.tree, quiet.circumstances.directory] at stored
        rw [other octets stored, reclaimed]
        simp
    exact ⟨after, done, back.after_quiet quiet⟩

/-- The return of a lock stops at a file that cannot be read, and changes nothing. -/
theorem release_stops (named : fileName? marker.key = some name) {octets : Octets} {limit : Limit}
    (stored : left.tree.read left.directory (lock.folder.child name) = .ok octets)
    (stops : Record.StopsAt octets limit) :
    ∃ after, (lock.release marker).exec left = (.error (.beyond limit), after) ∧
      left.Quiet after := by
  obtain ⟨after, read, quiet⟩ := readMarkerAt_exec (lock.folder.child name) left
  rw [stored, found_eq_error.mpr ⟨octets, limit, rfl, stops, rfl⟩] at read
  rw [release_eq (markerPath_eq rfl named)]
  exact ⟨after, Action.exec_bind_error read, quiet⟩

theorem isFileName_of_acquire {machine after : Machine} (named : fileName? key = some name)
    (taken : (lock.acquire key).exec machine = (.ok marker, after)) : Tree.IsFileName name := by
  have down := ne_up_of_fileName? named
  have creates (other : Marker) (before : Machine) :
      (lock.create (lock.folder.child name) other).Yields before fun _ _ =>
        Tree.IsFileName name := by
    have any {α : Type} {x : Action α} {m : Machine} : x.Yields m fun _ _ => True :=
      fun _ _ _ => trivial
    refine .bind any fun _ between _ => ?_
    refine .bind (P := fun made _ => ∀ number, made = .ok number → Tree.IsFileName name)
      (.of_exec (Action.exec_ask _ between) fun made answered number ok => ?_) fun made last short => ?_
    · obtain rfl := Except.ok.inj answered
      obtain ⟨⟨number, tree⟩, created⟩ : ∃ made, between.tree.createFile between.directory
          (lock.folder.child name) Record.privateMode = .ok made := by
        rcases created : between.tree.createFile between.directory (lock.folder.child name)
          Record.privateMode with fault | made
        · have refused : between.create (lock.folder.child name) Record.privateMode =
              (.error fault, between) := by rw [Machine.create, created]
          have failed := congrArg Prod.fst refused
          rw [show (between.create (lock.folder.child name) Record.privateMode).1 = .ok number from ok]
            at failed
          cases failed
        · exact ⟨made, rfl⟩
      obtain ⟨location, leads, -⟩ := exists_of_bind_ok created
      exact Tree.isFileName_of_locate leads down
    · rcases made with fault | number
      · cases fault
        case present => exact fun _ _ he => (refuse_yields _ _ _ _ _ he).elim
        all_goals exact .throw
      · exact fun _ _ _ => short number rfl
  have yields : (lock.acquire key).Yields machine fun _ _ => Tree.IsFileName name := by
    have any {α : Type} {x : Action α} {m : Machine} : x.Yields m fun _ _ => True :=
      fun _ _ _ => trivial
    rw [acquire_eq (markerPath_eq rfl named)]
    refine .bind any fun _ _ _ => .bind any fun _ _ _ => .bind any fun _ _ _ => ?_
    refine .bind any fun _ _ _ => .bind (creates _ _) fun _ _ short => ?_
    exact .bind any fun _ _ _ => .pure short
  exact yields marker after taken

/-- The marker that was written is of the holding that it was written for, when the time comes back
from its text. -/
theorem own_of_acquire {machine after : Machine} (named : fileName? key = some name)
    (numbered : machine.tree.Numbered) (lasts : machine.now.Lasts)
    (taken : (lock.acquire key).exec machine = (.ok marker, after)) :
    ∃ octets, after.tree.read after.directory (lock.folder.child name) = .ok octets ∧
      ¬ TellsOther marker octets := by
  have hn := isFileName_of_acquire named taken
  obtain ⟨place, g, number, mode, octets, stands, printed⟩ :=
    acquire_stands rfl numbered named hn marker after taken
  have own := marker_of_acquire rfl named taken
  refine ⟨octets, ?_, ?_⟩
  · have there := g.find hn
    rw [stands] at there
    rw [Tree.read, there]
    rfl
  · have joined : marker.key.rejoin = marker.key := own ▸ rejoin_of_fileName? named
    have stays : marker.acquired.Lasts := own ▸ lasts
    obtain ⟨entries, spelled, told⟩ := Marker.exists_entries joined stays printed
    rw [tellsOther_iff]
    rintro ⟨current, read, other⟩
    simp only [found, spelled, told] at read
    obtain rfl := Option.some.inj (Except.ok.inj read)
    simp [Marker.sameHolding, Moment.sameTime, Moment.comparable] at other

/-- A machine and how many sections have run on it. -/
structure Course where
  machine : Machine
  runs : Nat

/-- Operations among whose steps a section does anything, with errors of its own. -/
abbrev Conduct (ε : Type) := ExceptT (Failure ⊕ ε) (StateM Course)

namespace Conduct

variable {α ε : Type}

instance : MonadLiftT Action (Conduct ε) where
  monadLift action := .mk fun course =>
    let (outcome, machine) := action.exec course.machine
    (outcome.mapError .inl, { course with machine })

/-- How it ends. -/
def exec (conduct : Conduct ε α) (course : Course) : Except (Failure ⊕ ε) α × Course :=
  conduct.run.run course

/-- A section, which may turn the machine into any other one and return or fail. -/
def ofBody (body : Machine → Except (Failure ⊕ ε) α × Machine) : Conduct ε α := .mk fun course =>
  let (outcome, machine) := body course.machine
  (outcome, ⟨machine, course.runs + 1⟩)

omit [Runtime] in
/-- A sequence goes on with the result of its first part. -/
theorem exec_bind {β : Type} (x : Conduct ε α) (f : α → Conduct ε β) (course : Course) :
    (x >>= f).exec course = match x.exec course with
      | (.ok a, after) => (f a).exec after
      | (.error error, after) => (.error error, after) := by
  show (match x.exec course with | (outcome, after) => (ExceptT.bindCont f outcome).run after) = _
  rcases x.exec course with ⟨error | a, after⟩ <;> rfl

omit [Runtime] in
theorem exec_lift (action : Action α) (course : Course) :
    (liftM action : Conduct ε α).exec course = ((action.exec course.machine).1.mapError Sum.inl,
      { course with machine := (action.exec course.machine).2 }) := rfl

omit [Runtime] in
/-- A failure that is caught is handled where it left off. -/
theorem exec_tryCatch (x : Conduct ε α) (handle : Failure ⊕ ε → Conduct ε α) (course : Course) :
    (tryCatch x handle : Conduct ε α).exec course = match x.exec course with
      | (.ok a, after) => (.ok a, after)
      | (.error error, after) => (handle error).exec after := by
  have caught : (tryCatch x handle : Conduct ε α).exec course =
      (ExceptT.tryCatch x handle).run.run course := rfl
  rw [caught, ExceptT.tryCatch, ExceptT.run_mk, StateT.run_bind]
  show (x.exec course >>= fun result : Except (Failure ⊕ ε) α × Course => _ : Id _) = _
  rcases x.exec course with ⟨error | a, after⟩ <;> rfl

/-- A section runs between the taking of a lock and its return. -/
theorem exec_holding (lock : Lock) (key : Text) (body : Machine → Except (Failure ⊕ ε) α × Machine)
    (course : Course) : (lock.holding key (ofBody body)).exec course =
      match (lock.acquire key).exec course.machine with
      | (.error failure, after) => (.error (.inl failure), { course with machine := after })
      | (.ok marker, held) =>
        match (lock.release marker).exec (body held).2 with
        | (.error failure, after) => (.error (.inl failure), ⟨after, course.runs + 1⟩)
        | (.ok (), after) => ((body held).1, ⟨after, course.runs + 1⟩) := by
  rw [holding, exec_bind, exec_lift]
  rcases (lock.acquire key).exec course.machine with ⟨failure | marker, held⟩
  · rfl
  · have ran : (ofBody body).exec { course with machine := held } =
        ((body held).1, ⟨(body held).2, course.runs + 1⟩) := rfl
    have kept : (tryCatch (do return .ok (← ofBody body)) fun error => pure (.error error) :
        Conduct ε (Except (Failure ⊕ ε) α)).exec { course with machine := held } =
          (.ok (body held).1, ⟨(body held).2, course.runs + 1⟩) := by
      rw [exec_tryCatch, exec_bind, ran]
      cases (body held).1 <;> rfl
    simp only [Except.mapError]
    rw [exec_bind, kept]
    dsimp only
    rw [exec_bind, exec_lift]
    dsimp only
    rcases (lock.release marker).exec (body held).2 with ⟨failure | _, after⟩
    · rfl
    · simp only [Except.mapError]
      cases (body held).1 <;> rfl

end Conduct

/-- How a section under a lock goes: it is not run, or it is run once, and then the lock is given
back unless the return stops at what is in the place of the marker. -/
inductive Held {ε α : Type} (lock : Lock) (key : Text)
    (body : Machine → Except (Failure ⊕ ε) α × Machine) (before : Course) :
    Except (Failure ⊕ ε) α × Course → Prop where
  | refused {failure : Failure} {after : Machine}
    (refused : (lock.acquire key).exec before.machine = (.error failure, after)) :
    Held lock key body before (.error (.inl failure), ⟨after, before.runs⟩)
  | held {name : String} {marker : Marker} {held after : Machine} (named : fileName? key = some name)
    (taken : (lock.acquire key).exec before.machine = (.ok marker, held))
    (own : before.machine.tree.Numbered → before.machine.now.Lasts → ∃ octets,
      held.tree.read held.directory (lock.folder.child name) = .ok octets ∧
        ¬ TellsOther marker octets)
    (whole : ∀ octets limit, (body held).2.tree.read (body held).2.directory
      (lock.folder.child name) = .ok octets → ¬ Record.StopsAt octets limit)
    (back : GivenBack (lock.folder.child name) marker (body held).2 after) :
    Held lock key body before ((body held).1, ⟨after, before.runs + 1⟩)
  | stopped {name : String} {marker : Marker} {held after : Machine} {octets : Octets}
    {limit : Limit} (named : fileName? key = some name)
    (taken : (lock.acquire key).exec before.machine = (.ok marker, held))
    (stored : (body held).2.tree.read (body held).2.directory (lock.folder.child name) = .ok octets)
    (stops : Record.StopsAt octets limit) (kept : (body held).2.Quiet after) :
    Held lock key body before (.error (.inl (.beyond limit)), ⟨after, before.runs + 1⟩)

end

end Lock
end SessionKeeper
