import SessionKeeper.Proofs.Record.InOrder

/-!
# A store behaves like a dictionary

Whatever is done with a store that starts without a file, it answers what a dictionary
would, a map in the order of first insertion. After each operation the file is the
printed form of that map, and there is none while the map is empty. A value that cannot be
printed is refused and changes nothing. What one operation had the room to print the next one,
called from further down, may have no room to read: all that reads the file stops then, which
changes nothing either. An operation can fail for another reason only while there is no file, and
only where none could be made.
-/
namespace SessionKeeper.Record

variable {start machine before between after : Machine} {folder : Path} {name : String}
  {map old new entries : Assoc Text Json} {outcome : Except Failure Unit}

theorem InOrder.nodup (h : InOrder machine folder name entries) : entries.keys.Nodup :=
  ((Json.isPlain_obj entries).mp h.plain).1

section

variable [Runtime]

/-- What was noticed by nobody before a change does not matter to it. -/
theorem Changed.of_quiet (h : Changed folder name old new between outcome after)
    (directory : between.directory = before.directory)
    (same : between.belongings = before.belongings) :
    Changed folder name old new before outcome after where
  spared := Spared.trans
    (.of_tree directory (congrArg Prod.snd same) (congrArg Prod.fst same)) h.spared
  roomy roomy := h.roomy (roomy.of_tree directory (congrArg Prod.fst same))
  result := by
    rcases h.result with ok | refused | ⟨fault, hp, hold, stopped, order⟩
    · exact Or.inl ok
    · exact Or.inr (Or.inl refused)
    · refine Or.inr (Or.inr ⟨fault, hp, hold, fun roomy => stopped ?_, order⟩)
      exact roomy.of_tree directory (congrArg Prod.fst same)

end

namespace Store

section

variable [Runtime]

theorem put_changed (h : InOrder machine folder name entries) (down : name ≠ "..")
    (fits : (Json.obj entries).fits (Runtime.reads + 1) = true) {key : Text}
    (hk : key.IsJoined) {value : Json} (hv : value.isPlain = true) :
    ∃ outcome after, (put ⟨folder.child name⟩ key value).exec machine = (outcome, after) ∧
      Changed folder name entries (entries.put key value) machine outcome after := by
  obtain ⟨between, he, same⟩ := h.entries_exec down fits
  have directory := (Machine.SameCircumstances.of_exec_eq he).directory
  have order := h.of_tree directory (congrArg Prod.fst same)
  obtain ⟨outcome, after, hr, changed⟩ :=
    replace_changed order down (Json.isPlain_put h.plain hk hv)
  exact ⟨outcome, after, (Action.exec_bind_ok he).trans hr, changed.of_quiet directory same⟩

/-- Taking a key out of a store in order that there is room to read never fails. -/
theorem remove_changed (h : InOrder machine folder name entries) (down : name ≠ "..")
    (fits : (Json.obj entries).fits (Runtime.reads + 1) = true) (key : Text) :
    ∃ after, (remove ⟨folder.child name⟩ key).exec machine = (.ok (), after) ∧
      Changed folder name entries (entries.remove key) machine (.ok ()) after := by
  obtain ⟨between, he, same⟩ := h.entries_exec down fits
  have directory := (Machine.SameCircumstances.of_exec_eq he).directory
  have tree : between.tree = machine.tree := congrArg Prod.fst same
  have order := h.of_tree directory tree
  have left := Json.fits_remove (Json.fits_prints fits) key
  by_cases hk : entries.has key = true
  · obtain ⟨outcome, after, hr, changed⟩ :=
      replace_changed order down (Json.isPlain_remove h.plain key)
    have ok : outcome = .ok () := by
      rcases changed.result with ⟨ok, -⟩ | ⟨limit, -, met, -⟩ | ⟨-, -, rfl, -⟩
      · exact ok
      · rw [Json.limit?_eq_none.mpr left] at met
        nomatch met
      · nomatch hk
    subst ok
    refine ⟨after, (Action.exec_bind_ok he).trans ?_, changed.of_quiet directory same⟩
    rw [if_pos hk]
    exact hr
  · have absent : key ∉ entries.keys := by
      rw [← Assoc.has_iff]
      exact hk
    refine ⟨between, (Action.exec_bind_ok he).trans ?_,
      .of_tree directory (congrArg Prod.snd same) tree, fun roomy => roomy.of_tree directory tree,
      Or.inl ⟨rfl, left, ?_⟩⟩
    · rw [if_neg hk]
      rfl
    · rw [Assoc.remove_of_not_mem absent]
      exact order

/-- What can be asked of a store. -/
inductive Operation where
  | put (key : Text) (value : Json)
  | get (key : Text) (default : Json)
  | remove (key : Text)
  | clear
  | entries

/-- What a store answers. -/
inductive Reply where
  | nothing
  | value (value : Json)
  | entries (entries : Assoc Text Json)

def perform (store : Store) : Operation → Action Reply
  | .put key value => do
    store.put key value
    return .nothing
  | .get key default => do return .value ((← store.get? key).getD default)
  | .remove key => do
    store.remove key
    return .nothing
  | .clear => do
    store.clear
    return .nothing
  | .entries => do return .entries (← store.entries)

namespace Operation

/-- Whether keys and values that go in are texts and values that a document can carry. -/
def IsPlain : Operation → Prop
  | .put key value => key.IsJoined ∧ value.isPlain = true
  | _ => True

/-- What a dictionary holds after an operation. -/
def applied (map : Assoc Text Json) : Operation → Assoc Text Json
  | .put key value => map.put key value
  | .remove key => map.remove key
  | .clear => []
  | _ => map

/-- What a dictionary answers. -/
def reply (map : Assoc Text Json) : Operation → Reply
  | .get key default => .value ((map.value? key).getD default)
  | .entries => .entries map
  | _ => .nothing

def isReading : Operation → Bool
  | .clear => false
  | _ => true

def refusal? : Operation → Option Limit
  | .put _ value => value.limit? Runtime.prints
  | _ => none

/-- Whether an operation needs the file system even where there is no file. -/
def isDemanding : Operation → Bool
  | .put _ value => value.fits Runtime.prints
  | .clear => true
  | _ => false

/-- The outcome on a file system that takes the file: that of the dictionary, if there is room to
read it and to print what is put into it. -/
def Expects (map : Assoc Text Json) (operation : Operation) (outcome : Except Failure Reply) :
    Prop :=
  if operation.isReading && !(Json.obj map).fits (Runtime.reads + 1) then
    ∃ nesting, outcome = .error (.beyond (.levels nesting))
  else outcome = match operation.refusal? with
    | some limit => .error (.beyond limit)
    | none => .ok (operation.reply map)

theorem Expects.of_fits {map : Assoc Text Json} {operation : Operation}
    {outcome : Except Failure Reply} (h : operation.Expects map outcome)
    (fits : (Json.obj map).fits (Runtime.reads + 1) = true) :
    outcome = match operation.refusal? with
      | some limit => .error (.beyond limit)
      | none => .ok (operation.reply map) := by
  rwa [Expects, fits, Bool.not_true, Bool.and_false, if_neg Bool.false_ne_true] at h

/-- What a dictionary holds that an operation was done on if it was successful. -/
def settled (map : Assoc Text Json) (operation : Operation) :
    Except Failure Reply → Assoc Text Json
  | .ok _ => operation.applied map
  | .error _ => map

end Operation

/-- The outcome of an operation on a store that mirrors a map: what the map gives, or a fault of
the file system, which has to be met by a store without a file. -/
structure Mirrored (folder : Path) (name : String) (map : Assoc Text Json) (operation : Operation)
    (before : Machine) (outcome : Except Failure Reply) (after : Machine) : Prop where
  spared : Spared folder name before after
  roomy : Roomy before folder name → Roomy after folder name
  order : InOrder after folder name (operation.settled map outcome)
  outcome : operation.Expects map outcome ∨
    (map = [] ∧ operation.isDemanding = true ∧ ¬ Roomy before folder name ∧
      ∃ fault, outcome = .error (.file fault))

theorem Mirrored.of_changed {operation : Operation}
    (h : Changed folder name map new machine outcome after) (hn : operation.applied map = new)
    (fits : operation.isReading = true → (Json.obj map).fits (Runtime.reads + 1) = true)
    (refused : operation.refusal? = (Json.obj new).limit? (Runtime.prints + 1))
    (demanding : (Json.obj new).fits (Runtime.prints + 1) = true → outcome ≠ .ok () →
      operation.isDemanding = true)
    (reply : operation.reply map = .nothing) :
    Mirrored folder name map operation machine (outcome.map fun _ => .nothing) after := by
  subst hn
  have read : ¬ (operation.isReading && !(Json.obj map).fits (Runtime.reads + 1)) = true := by
    simpa using fits
  rcases h.result with ⟨rfl, room, order⟩ | ⟨limit, rfl, met, order⟩ |
    ⟨⟨fault, rfl⟩, room, rfl, stopped, order⟩
  · refine ⟨h.spared, h.roomy, order, Or.inl ?_⟩
    rw [Operation.Expects, if_neg read, refused, Json.limit?_eq_none.mpr room, reply]
    rfl
  · refine ⟨h.spared, h.roomy, order, Or.inl ?_⟩
    rw [Operation.Expects, if_neg read, refused, met]
    rfl
  · exact ⟨h.spared, h.roomy, order, Or.inr ⟨rfl, demanding room nofun, stopped, fault, rfl⟩⟩

theorem Mirrored.of_read (h : InOrder before folder name map) {operation : Operation}
    (directory : after.directory = before.directory) (same : after.belongings = before.belongings)
    (fits : (Json.obj map).fits (Runtime.reads + 1) = true)
    (refused : operation.refusal? = none) (applied : operation.applied map = map) :
    Mirrored folder name map operation before (.ok (operation.reply map)) after where
  spared := .of_tree directory (congrArg Prod.snd same) (congrArg Prod.fst same)
  roomy roomy := roomy.of_tree directory (congrArg Prod.fst same)
  order := by
    rw [Operation.settled, applied]
    exact h.of_tree directory (congrArg Prod.fst same)
  outcome := Or.inl (by simp [Operation.Expects, fits, refused])

/-- An operation that has no room to read the file changes nothing. -/
theorem Mirrored.of_stopped (h : InOrder machine folder name map) {operation : Operation}
    (reading : operation.isReading = true)
    (deep : (Json.obj map).fits (Runtime.reads + 1) = false) (nesting : Nesting) :
    Mirrored folder name map operation machine (.error (.beyond (.levels nesting))) machine where
  spared := .refl _
  roomy := id
  order := h
  outcome := Or.inl (by
    rw [Operation.Expects, reading, deep]
    exact ⟨nesting, rfl⟩)

theorem perform_stopped (h : InOrder machine folder name map) (down : name ≠ "..")
    {operation : Operation} (reading : operation.isReading = true)
    (deep : (Json.obj map).fits (Runtime.reads + 1) = false) :
    ∃ nesting, (perform ⟨folder.child name⟩ operation).exec machine =
      (.error (.beyond (.levels nesting)), machine) := by
  obtain ⟨nesting, stopped⟩ := h.entries_stopped down deep
  refine ⟨nesting, ?_⟩
  cases operation with
  | clear => nomatch reading
  | put key value => exact Action.exec_bind_error (Action.exec_bind_error stopped)
  | get key default => exact Action.exec_bind_error (Action.exec_bind_error stopped)
  | remove key => exact Action.exec_bind_error (Action.exec_bind_error stopped)
  | entries => exact Action.exec_bind_error stopped

theorem perform_of_fits (h : InOrder machine folder name map) (down : name ≠ "..")
    (operation : Operation) (plain : operation.IsPlain)
    (fits : operation.isReading = true → (Json.obj map).fits (Runtime.reads + 1) = true) :
    ∃ outcome after, (perform ⟨folder.child name⟩ operation).exec machine = (outcome, after) ∧
      Mirrored folder name map operation machine outcome after := by
  cases operation with
  | put key value =>
    have printable := Json.fits_prints (fits rfl)
    obtain ⟨outcome, after, he, changed⟩ := put_changed h down (fits rfl) plain.1 plain.2
    refine ⟨_, after, Action.exec_bind_pure he _,
      Mirrored.of_changed changed rfl fits (Json.limit?_put printable key value).symm ?_ rfl⟩
    intro room _
    exact (Json.fits_put printable key value).symm.trans room
  | get key default =>
    obtain ⟨after, he, same⟩ := h.entries_exec down (fits rfl)
    have directory := (Machine.SameCircumstances.of_exec_eq he).directory
    exact ⟨_, after, Action.exec_bind_pure (Action.exec_bind_pure he _) _,
      .of_read h directory same (fits rfl) rfl rfl⟩
  | remove key =>
    have left := Json.fits_remove (Json.fits_prints (fits rfl)) key
    obtain ⟨after, he, changed⟩ := remove_changed h down (fits rfl) key
    refine ⟨_, after, Action.exec_bind_pure he _,
      Mirrored.of_changed changed rfl fits (Json.limit?_eq_none.mpr left).symm ?_ rfl⟩
    intro _ failed
    exact absurd rfl failed
  | clear =>
    obtain ⟨outcome, after, he, changed⟩ := clear_changed h down
    exact ⟨_, after, Action.exec_bind_pure he _,
      Mirrored.of_changed changed rfl fits rfl (fun _ _ => rfl) rfl⟩
  | entries =>
    obtain ⟨after, he, same⟩ := h.entries_exec down (fits rfl)
    have directory := (Machine.SameCircumstances.of_exec_eq he).directory
    exact ⟨_, after, Action.exec_bind_pure he _, .of_read h directory same (fits rfl) rfl rfl⟩

theorem perform_mirrored (h : InOrder machine folder name map) (down : name ≠ "..")
    (operation : Operation) (plain : operation.IsPlain) :
    ∃ outcome after, (perform ⟨folder.child name⟩ operation).exec machine = (outcome, after) ∧
      Mirrored folder name map operation machine outcome after := by
  by_cases stops : operation.isReading = true ∧ (Json.obj map).fits (Runtime.reads + 1) = false
  · obtain ⟨nesting, stopped⟩ := perform_stopped h down stops.1 stops.2
    exact ⟨_, _, stopped, .of_stopped h stops.1 stops.2 nesting⟩
  · exact perform_of_fits h down operation plain fun reading => by
      simpa using fun deep => stops ⟨reading, deep⟩

end

/-- The machine and the map that a run of operations reaches, when the map undergoes those that
succeed. Each operation is called from wherever it is, so each has a room of its own. -/
inductive Run (store : Store) (start : Machine) : Machine → Assoc Text Json → Prop where
  | start : Run store start start []
  | perform [Runtime] {machine after : Machine} {map : Assoc Text Json}
      {outcome : Except Failure Reply} (run : Run store start machine map) (operation : Operation)
      (plain : operation.IsPlain)
      (executed : (store.perform operation).exec machine = (outcome, after)) :
      Run store start after (operation.settled map outcome)

/-- What holds in every state that a run of operations reaches. -/
structure Kept (folder : Path) (name : String) (start machine : Machine)
    (map : Assoc Text Json) : Prop where
  order : InOrder machine folder name map
  spared : Spared folder name start machine
  roomy : Roomy start folder name → Roomy machine folder name

theorem kept_of_run (numbered : start.tree.Numbered) (vacant : Vacant start folder name)
    (down : name ≠ "..") (run : Run ⟨folder.child name⟩ start machine map) :
    Kept folder name start machine map := by
  induction run with
  | start => exact ⟨.of_vacant numbered vacant, .refl _, id⟩
  | perform run operation plain executed ih =>
    obtain ⟨outcome, after, he, mirrored⟩ := perform_mirrored ih.order down operation plain
    rw [executed] at he
    obtain ⟨rfl, rfl⟩ := Prod.mk.inj he
    exact ⟨mirrored.order, ih.spared.trans mirrored.spared, fun h => mirrored.roomy (ih.roomy h)⟩

/-- On the empty folder a file can be written under every name that is short enough. -/
theorem vacant_bare (hn : Tree.IsFileName name) : Vacant .bare ⟨"/", ["home"]⟩ name :=
  .of_ground Machine.ground_bare hn (Machine.under_bare name)

theorem roomy_bare (ht : Tree.IsFileName (Machine.temporaryName name 0)) :
    Roomy .bare ⟨"/", ["home"]⟩ name := by
  refine .of_ground Machine.ground_bare ⟨0, nofun, Machine.under_bare _, ht⟩ fun mode => ?_
  simp [Machine.under_bare]

/-- In a store on the empty folder an entry is put, by an operation that has so much room. -/
theorem exists_run_put (runtime : Runtime) {value : Json} (plain : value.isPlain = true)
    (fits : value.fits Runtime.prints = true) :
    ∃ machine, Run ⟨(⟨"/", ["home"]⟩ : Path).child "r"⟩ .bare machine [("k", value)] := by
  have hn : Tree.IsFileName "r" := ⟨by decide, by decide⟩
  have roomy : Roomy .bare ⟨"/", ["home"]⟩ "r" := roomy_bare ⟨by decide, by decide⟩
  have joined : Text.IsJoined "k" := Text.isJoined_ofString "k"
  have order := InOrder.of_vacant Machine.ground_bare.numbered (vacant_bare hn)
  obtain ⟨outcome, machine, he, mirrored⟩ :=
    perform_mirrored order hn.down (.put "k" value) ⟨joined, plain⟩
  rcases mirrored.outcome with expected | ⟨-, -, stopped, -⟩
  · have returned := expected.of_fits rfl
    rw [Operation.refusal?, Json.limit?_eq_none.mpr fits] at returned
    subst returned
    exact ⟨machine, Run.start.perform (.put "k" value) ⟨joined, plain⟩ he⟩
  · exact absurd roomy stopped

end Store

end SessionKeeper.Record
