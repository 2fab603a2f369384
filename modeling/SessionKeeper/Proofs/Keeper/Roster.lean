import SessionKeeper.Proofs.Keeper.Listing
import SessionKeeper.Proofs.Keeper.Staff
import SessionKeeper.Proofs.Secret.Levels

/-!
# The roster of workers

What a run leaves of the workers is a roster: under each id the name, the secret and the time of
the latest registration. The file of workers has the records of the roster, and the backend has
its secrets. Listing, finding and removing workers are read off the roster.
-/
namespace SessionKeeper

/-- That a worker comes back from its record as it is, but for a secret: its id and name are
joined, trimmed and not blank, and its time of registration lasts. -/
structure Worker.Lasts (worker : Worker) : Prop where
  joined : worker.id.IsJoined ∧ worker.name.IsJoined
  trimmed : worker.id.trim = worker.id ∧ worker.name.trim = worker.name
  named : worker.id ≠ [] ∧ worker.name ≠ []
  created : worker.created.Lasts

theorem Worker.Lasts.read {worker : Worker} (h : worker.Lasts) (now : Moment) :
    Worker.read now worker.publicRecord = .ok { worker with secret := none } := by
  obtain ⟨⟨hid, hname⟩, ⟨tid, tname⟩, ⟨nid, nname⟩, created⟩ := h
  have id : worker.id.rejoin.trim = worker.id := by rw [Text.rejoin_of_isJoined hid, tid]
  have name : worker.name.rejoin.trim = worker.name := by rw [Text.rejoin_of_isJoined hname, tname]
  have sound : worker.IsSound := ⟨id.symm ▸ nid, name.symm ▸ nname, created.sound⟩
  rw [Worker.read_publicRecord hid hname sound, recalled, id, name, created.stored]

namespace Keeper

/-- What is known of a worker that is registered, apart from its id. -/
structure Enrolment where
  name : Text
  secret : Text
  created : Moment

/-- The worker with this id, without its secret. -/
def Enrolment.worker (enrolment : Enrolment) (id : Text) : Worker :=
  ⟨id, enrolment.name, none, enrolment.created⟩

/-- Workers under their ids, in the order in which they came. -/
abbrev Roster := Assoc Text Enrolment

/-- An operation of a run, with the time at which it was done and how it ended. -/
structure Deed where
  time : Moment
  operation : Operation
  ending : Ending

namespace Roster

/-- The roster once something was done. A registration that returned puts its worker there, in
place of what was known under that id, and a removal that returned takes one out. -/
def after (roster : Roster) (deed : Deed) : Roster :=
  match deed.operation, deed.ending with
  | .registerWorker id name secret, .ok _ => roster.put id.trim ⟨name.trim, secret, deed.time⟩
  | .removeWorker id, .ok _ => roster.remove id
  | _, _ => roster

/-- The roster after a run, of which the latest deed comes first. -/
def ofDeeds : List Deed → Roster
  | [] => []
  | deed :: rest => (ofDeeds rest).after deed

/-- The records of the workers, as they are on file. -/
def records (roster : Roster) : Assoc Text Json :=
  roster.map fun entry => (entry.1, (entry.2.worker entry.1).publicRecord)

/-- The workers without their secrets. -/
def workers (roster : Roster) : List Worker := roster.map fun entry => entry.2.worker entry.1

def secret? (roster : Roster) (id : Text) : Option Text := (roster.value? id).map Enrolment.secret

/-- That no id is there twice, and that every worker comes back from its record. -/
structure IsProper (roster : Roster) : Prop where
  nodup : roster.keys.Nodup
  lasts : ∀ entry ∈ roster, (entry.2.worker entry.1).Lasts

/-- That all times of registration have an offset, or that none has one. -/
def IsUniform (roster : Roster) : Prop :=
  ∀ a ∈ roster, ∀ b ∈ roster, a.2.created.offset.isSome = b.2.created.offset.isSome

/-- That a listing has every worker once, without its secret, and none later than one that was
registered before it; those that were registered at the same time stand in the order of the
roster. -/
structure Lists (roster : Roster) (listing : List Worker) : Prop where
  all : listing.Perm roster.workers
  once : (listing.map Worker.id).Nodup
  ordered : listing.Pairwise fun a b => a.created.universalMicros ≤ b.created.universalMicros
  stable : ∀ a b, [a, b].Sublist roster.workers →
    a.created.universalMicros = b.created.universalMicros → [a, b].Sublist listing

/-- What is found by a text: the worker with this id and its secret, whatever others are named;
else the first one of the listing with this name, and its secret; else none. -/
inductive Finds (roster : Roster) (listing : List Worker) (sought : Text) : Option Worker → Prop
  | byId {enrolment : Enrolment} (there : roster.value? sought = some enrolment) :
      Finds roster listing sought
        (some { enrolment.worker sought with secret := some enrolment.secret })
  | byName {earlier later : List Worker} {worker : Worker} {enrolment : Enrolment}
      (absent : roster.value? sought = none) (listed : listing = earlier ++ worker :: later)
      (first : ∀ other ∈ earlier, other.name ≠ sought) (named : worker.name = sought)
      (there : roster.value? worker.id = some enrolment) :
      Finds roster listing sought (some { worker with secret := some enrolment.secret })
  | nothing (absent : roster.value? sought = none)
      (unnamed : ∀ worker ∈ listing, worker.name ≠ sought) : Finds roster listing sought none

variable {roster : Roster} {listing : List Worker} {id : Text}

theorem records_put (roster : Roster) (id : Text) (enrolment : Enrolment) :
    records (roster.put id enrolment) = roster.records.put id (enrolment.worker id).publicRecord :=
  Assoc.map_put roster (fun id enrolment => (enrolment.worker id).publicRecord) id enrolment

theorem records_remove (roster : Roster) (id : Text) :
    records (roster.remove id) = roster.records.remove id :=
  Assoc.map_remove roster (fun id enrolment => (enrolment.worker id).publicRecord) id

theorem secret?_put (roster : Roster) (id : Text) (enrolment : Enrolment) :
    secret? (roster.put id enrolment) =
      Function.update roster.secret? id (some enrolment.secret) := by
  funext other
  rw [secret?, Assoc.value?_put, Function.update_apply]
  by_cases same : other = id
  · rw [if_pos same, if_pos same.symm]
    rfl
  · rw [if_neg same, if_neg (Ne.symm same)]
    rfl

theorem secret?_remove (roster : Roster) (id : Text) :
    secret? (roster.remove id) = Function.update roster.secret? id none := by
  funext other
  rw [secret?, Assoc.value?_remove, Function.update_apply]
  by_cases same : other = id
  · rw [if_pos same, if_pos same.symm]
    rfl
  · rw [if_neg same, if_neg (Ne.symm same)]
    rfl

theorem isSome_secret? (roster : Roster) (id : Text) :
    (roster.secret? id).isSome = roster.has id := Option.isSome_map

theorem IsProper.readable (proper : roster.IsProper) (now : Moment) :
    Worker.readable now roster.records = roster.workers := by
  rw [Worker.readable, records, List.map_map, List.filterMap_map, workers, ← List.filterMap_eq_map]
  refine List.filterMap_congr fun entry he => ?_
  show (Worker.read now (entry.2.worker entry.1).publicRecord).toOption = _
  rw [(proper.lasts entry he).read]
  rfl

theorem IsProper.put (proper : roster.IsProper) {enrolment : Enrolment}
    (lasts : (enrolment.worker id).Lasts) : IsProper (roster.put id enrolment) where
  nodup := Assoc.nodup_put proper.nodup id enrolment
  lasts entry he := by
    rcases Assoc.mem_put proper.nodup id enrolment entry he with rfl | ⟨hm, -⟩
    · exact lasts
    · exact proper.lasts entry hm

theorem IsProper.remove (proper : roster.IsProper) (id : Text) :
    IsProper (roster.remove id) where
  nodup := Assoc.nodup_remove proper.nodup id
  lasts entry he := proper.lasts entry (Assoc.mem_remove he)

theorem map_id_workers (roster : Roster) : roster.workers.map Worker.id = roster.keys := by
  rw [workers, List.map_map]
  rfl

theorem mem_workers {worker : Worker} : worker ∈ roster.workers ↔
    ∃ enrolment, (worker.id, enrolment) ∈ roster ∧ worker = enrolment.worker worker.id := by
  rw [workers, List.mem_map]
  constructor
  · rintro ⟨⟨id, enrolment⟩, there, rfl⟩
    exact ⟨enrolment, there, rfl⟩
  · rintro ⟨enrolment, there, same⟩
    exact ⟨(worker.id, enrolment), there, same.symm⟩

theorem isUniform_iff : roster.IsUniform ↔
    ∀ a ∈ roster.workers, ∀ b ∈ roster.workers,
      a.created.offset.isSome = b.created.offset.isSome := by
  rw [workers]
  simp only [List.forall_mem_map]
  rfl

theorem IsProper.lists (proper : roster.IsProper) (sorted : IsSorted roster.workers listing) :
    roster.Lists listing where
  all := sorted.all
  once := by
    rw [(sorted.all.map Worker.id).nodup_iff, map_id_workers]
    exact proper.nodup
  ordered := sorted.ordered
  stable := sorted.stable

theorem Lists.value? (proper : roster.IsProper) (lists : roster.Lists listing) {worker : Worker}
    (listed : worker ∈ listing) : ∃ enrolment,
      roster.value? worker.id = some enrolment ∧ worker = enrolment.worker worker.id := by
  obtain ⟨enrolment, there, same⟩ := mem_workers.mp (lists.all.mem_iff.mp listed)
  exact ⟨enrolment, Assoc.value?_of_mem proper.nodup there, same⟩

theorem Lists.finds (proper : roster.IsProper) (lists : roster.Lists listing) (sought : Text) :
    roster.Finds listing sought (((listing.find? fun worker => worker.id = sought).or
      (listing.find? fun worker => worker.name = sought)).map
        fun worker => { worker with secret := roster.secret? worker.id }) := by
  cases hid : listing.find? fun worker => worker.id = sought with
  | some worker =>
    obtain ⟨enrolment, there, same⟩ := lists.value? proper (List.mem_of_find?_eq_some hid)
    have own := List.find?_some hid
    obtain rfl : worker.id = sought := of_decide_eq_true own
    have found : roster.Finds listing worker.id _ := .byId there
    rw [← same] at found
    rwa [Option.some_or, Option.map_some, secret?, there]
  | none =>
    -- A worker with this id would be in the listing, where none was found.
    have absent : roster.value? sought = none := by
      cases there : roster.value? sought with
      | none => rfl
      | some enrolment =>
        have listed : enrolment.worker sought ∈ listing :=
          lists.all.mem_iff.mpr (mem_workers.mpr ⟨enrolment, Assoc.mem_of_value? there, rfl⟩)
        exact absurd (decide_eq_true rfl) (List.find?_eq_none.mp hid _ listed)
    rw [Option.none_or]
    cases hname : listing.find? fun worker => worker.name = sought with
    | none =>
      exact .nothing absent fun worker hw same =>
        List.find?_eq_none.mp hname worker hw (decide_eq_true same)
    | some worker =>
      obtain ⟨named, earlier, later, listed, first⟩ := List.find?_eq_some_iff_append.mp hname
      obtain ⟨enrolment, there, -⟩ := lists.value? proper (List.mem_of_find?_eq_some hname)
      have found := Finds.byName absent listed (fun other ho => by simpa using first other ho)
        (of_decide_eq_true named) there
      rwa [Option.map_some, secret?, there]

end Roster

variable {keeper : Keeper} {folder : Path} {place : Location} {machine : Machine}
  {holds : Machine → Secret.Ledger → Prop} {books : Books} {scene : Scene} {roster : Roster}

section

variable [Runtime]

/-- Listing the workers of a roster puts them in order, or stops if their times do not allow it. -/
theorem listWorkers_exec (own : keeper.StoresIn folder place holds)
    (g : Ground machine folder place) (proper : roster.IsProper)
    (held : Record.Holds machine place workersName roster.records) :
    ∃ outcome after, machine.Quiet after ∧ keeper.listWorkers.exec machine = (outcome, after) ∧
      Orders roster.workers outcome := by
  have file := (isRecordName_of_mem workersName (by decide)).file
  have entries := Record.Store.entries_exec g file held
  rw [← own.workers] at entries
  obtain ⟨outcome, orders, ends⟩ := listWorkers_orders machine.now roster.records
  rw [proper.readable] at orders
  exact ⟨outcome, _, machine.quiet_warned _ _, ends keeper machine machine rfl entries, orders⟩

theorem getWorker_exec (own : keeper.StoresIn folder place holds)
    (h : Balanced keeper folder place holds none books machine)
    (secrets : books.secrets = roster.secret?) {listing : List Worker} {between : Machine}
    (listed : keeper.listWorkers.exec machine = (.ok listing, between))
    (looked : machine.Quiet between) (sought : Text) :
    ∃ after, machine.Quiet after ∧ (keeper.getWorker sought).exec machine =
      (.ok (((listing.find? fun worker => worker.id = sought).or
        (listing.find? fun worker => worker.name = sought)).map
          fun worker => { worker with secret := roster.secret? worker.id }), after) := by
  unfold getWorker
  rw [Action.exec_bind_ok listed]
  dsimp only
  cases (listing.find? fun worker => worker.id = sought).or
    (listing.find? fun worker => worker.name = sought) with
  | none => exact ⟨between, looked, rfl⟩
  | some worker =>
    have still := h.quiet own looked
    obtain ⟨ledger, kept, known, -⟩ := still.secrets
    obtain ⟨after, he, quiet⟩ := own.secrets.get? still.ground kept keeper.workerService worker.id
    rw [known, secrets] at he
    exact ⟨after, looked.trans quiet, (Action.exec_bind_ok he).trans rfl⟩

/-- That the workers are listed and found as the roster says, with nothing changed. -/
def Tells (keeper : Keeper) (roster : Roster) (machine : Machine) : Prop :=
  ∃ listing between, roster.Lists listing ∧ machine.Quiet between ∧
    keeper.listWorkers.exec machine = (.ok listing, between) ∧
    ∀ sought, ∃ found after, roster.Finds listing sought found ∧ machine.Quiet after ∧
      (keeper.getWorker sought).exec machine = (.ok found, after)

/-- That removing a worker returns whether it was on the roster, takes out all that there was of
it and nothing else, and if it was current leaves no session; and that removing it again returns
that it is not there. -/
structure Removes (keeper : Keeper) (place : Location) (holds : Machine → Secret.Ledger → Prop)
    (roster : Roster) (machine : Machine) (id : Text) (after : Machine) : Prop where
  returned : (keeper.removeWorker id).exec machine = (.ok (roster.has id), after)
  dismissed : Dismissed keeper place holds id machine after
  current : ∃ current, keeper.current?.exec machine = (.ok current, machine) ∧
    keeper.current?.exec after =
      (.ok (current.filter fun session => session.subject ≠ Worker.subject id), after)
  again : ∃ last, (keeper.removeWorker id).exec after = (.ok false, last)

/-- That what is stored of workers is what the roster says: the records on file and the secrets
in the backend; that removing workers goes by the roster, and listing and finding them as well, if
the times of their registration can be brought into one order. -/
structure Reflects (keeper : Keeper) (place : Location) (holds : Machine → Secret.Ledger → Prop)
    (roster : Roster) (machine : Machine) : Prop where
  once : roster.keys.Nodup
  records : Record.Holds machine place workersName roster.records
  secrets : ∃ ledger, holds machine ledger ∧ ledger keeper.workerService = roster.secret?
  tells : roster.IsUniform → keeper.Tells roster machine
  removes : ∀ id, ∃ after, keeper.Removes place holds roster machine id after

/-- That the books are settled and say of the workers what the roster says, with no marker of the
session lock left. -/
structure Enrolled (keeper : Keeper) (folder : Path) (place : Location)
    (holds : Machine → Secret.Ledger → Prop) (roster : Roster) (books : Books) (machine : Machine) :
    Prop where
  balanced : Balanced keeper folder place holds none books machine
  settled : books.IsSettled
  secrets : books.secrets = roster.secret?
  staffed : Staffed folder place none roster.records machine
  proper : roster.IsProper

namespace Enrolled

theorem holds_records (h : Enrolled keeper folder place holds roster books machine) :
    Record.Holds machine place workersName roster.records := by
  obtain ⟨entries, held, -⟩ := h.balanced.workers
  rwa [← h.staffed.records, held.entriesAt_eq]

theorem tells (own : keeper.StoresIn folder place holds)
    (h : Enrolled keeper folder place holds roster books machine) (uniform : roster.IsUniform) :
    keeper.Tells roster machine := by
  obtain ⟨outcome, between, quiet, listed, orders⟩ :=
    listWorkers_exec own h.balanced.ground h.proper h.holds_records
  cases orders with
  | @sorted listing _ sorted =>
    have lists := h.proper.lists sorted
    refine ⟨listing, between, lists, quiet, listed, fun sought => ?_⟩
    obtain ⟨after, looked, found⟩ := getWorker_exec own h.balanced h.secrets listed quiet sought
    exact ⟨_, after, lists.finds h.proper sought, looked, found⟩
  | @uneven a b ha hb bare offset =>
    have alike := Roster.isUniform_iff.mp uniform a ha b hb
    rw [bare] at alike
    have none := Option.isSome_eq_false_iff.mp alike.symm
    exact absurd (Option.isNone_iff_eq_none.mp none) offset

theorem removed (own : keeper.StoresIn folder place holds)
    (short : keeper.lock.holder.natAbs < Json.digitLimit)
    (h : Enrolled keeper folder place holds roster books machine) (id : Text) :
    ∃ after, (keeper.removeWorker id).exec machine = (.ok (roster.has id), after) ∧
      Enrolled keeper folder place holds (roster.remove id) (books.without id) after ∧
      Dismissed keeper place holds id machine after := by
  obtain ⟨after, removed, balanced, staffed, dismissed⟩ :=
    removeWorker_exec own short h.balanced h.settled h.staffed id
  rw [h.secrets, roster.isSome_secret?] at removed
  refine ⟨after, removed,
    ⟨balanced, (h.settled.forgotten id).1, ?_, ?_, h.proper.remove id⟩, dismissed⟩
  · rw [roster.secret?_remove, ← h.secrets]
    rfl
  · rw [roster.records_remove]
    exact staffed

theorem removes (own : keeper.StoresIn folder place holds)
    (short : keeper.lock.holder.natAbs < Json.digitLimit)
    (h : Enrolled keeper folder place holds roster books machine) (id : Text) :
    ∃ after, keeper.Removes place holds roster machine id after := by
  obtain ⟨after, returned, left, dismissed⟩ := h.removed own short id
  obtain ⟨last, again, -⟩ := left.removed own short id
  have gone : Assoc.has (roster.remove id) id = false := by
    rw [Assoc.has, Assoc.value?_remove_self]
    rfl
  rw [gone] at again
  refine ⟨after, returned, dismissed,
    ⟨_, current?_exec own.index h.balanced.shows, ?_⟩, last, again⟩
  rw [current?_exec own.index left.balanced.shows, Option.filter_map]
  refine congrArg (fun current => (Except.ok current, after)) (congrArg _ ?_)
  refine congrArg (Option.filter · books.current) (funext fun session => ?_)
  rw [Function.comp_apply, Session.subject_recalled]

theorem reflects (own : keeper.StoresIn folder place holds)
    (short : keeper.lock.holder.natAbs < Json.digitLimit)
    (h : Enrolled keeper folder place holds roster books machine) :
    keeper.Reflects place holds roster machine where
  once := h.proper.nodup
  records := h.holds_records
  secrets := by
    obtain ⟨ledger, kept, known, -⟩ := h.balanced.secrets
    exact ⟨ledger, kept, known.trans h.secrets⟩
  tells := h.tells own
  removes := h.removes own short

end Enrolled

/-- A registration that returns has made the session of the worker that was to be registered, at
the time that the clock showed. -/
theorem registerWorker_returns (keeper : Keeper) (scene : Scene) (id name secret : Text) :
    (keeper.registerWorker id name secret).Yields scene fun s _ =>
      s = .ofWorker ⟨id.trim, name.trim, some secret, scene.machine.now⟩ ∧
        id.trim ≠ [] ∧ name.trim ≠ [] := by
  unfold registerWorker
  by_cases empty : secret.isEmpty = true
  · rw [if_pos empty]
    exact .throw_bind
  · rw [if_neg empty]
    refine .bind (P := fun time _ => time = scene.machine.now)
      (.lift (.of_exec (Action.exec_now _) fun time ht => (Except.ok.inj ht).symm)) ?_
    rintro time between rfl
    cases hw : Worker.make id name secret scene.machine.now with
    | error issues => exact .throw_bind
    | ok worker =>
      obtain ⟨rfl, named⟩ := Worker.make_ok hw
      refine .bind (P := fun made _ =>
          made = ⟨id.trim, name.trim, some secret, scene.machine.now⟩)
        (.lift (.of_exec rfl fun made hm => (Except.ok.inj hm).symm)) ?_
      rintro made later rfl
      refine .bind (P := fun _ _ => True) (fun _ _ _ _ => trivial) fun _ _ _ => ?_
      exact .bind (P := fun _ _ => True) (fun _ _ _ _ => trivial) fun _ _ _ => .pure ⟨rfl, named⟩

/-- What is to be known of the end of an operation that was done at a time. -/
def Operation.Ended (time : Moment) : Operation → Ending → Prop
  | .registerWorker id name secret, .ok result =>
    result = some (.worker (.ofWorker ⟨id.trim, name.trim, some secret, time⟩)) ∧
      id.trim ≠ [] ∧ name.trim ≠ []
  | _, _ => True

theorem perform_ended (keeper : Keeper) (scene : Scene) (operation : Operation) :
    (keeper.perform operation).Ends scene fun ending _ =>
      operation.Ended scene.machine.now ending := by
  cases operation with
  | registerWorker id name secret =>
    refine .bind (registerWorker_returns keeper scene id name secret).ends (fun s _ told => ?_)
      fun _ _ _ => trivial
    obtain ⟨rfl, named⟩ := told s rfl
    exact .pure ⟨rfl, named⟩
  | _ => trivial

namespace Roster

variable {time : Moment} {operation : Operation} {ending : Ending}

omit [Runtime] in
theorem records_after (roster : Roster) (time : Moment) (operation : Operation) (ending : Ending) :
    records (roster.after ⟨time, operation, ending⟩) =
      recordsAfter roster.records time operation ending := by
  cases operation with
  | registerWorker id name secret =>
    cases ending with
    | ok _ => exact roster.records_put _ _
    | error _ => rfl
  | removeWorker id =>
    cases ending with
    | ok _ => exact roster.records_remove id
    | error _ => rfl
  | _ => rfl

omit [Runtime] in
theorem secret?_after (roster : Roster) (ended : operation.Ended time ending) :
    secret? (roster.after ⟨time, operation, ending⟩) =
      secretsAfter roster.secret? operation ending := by
  cases operation with
  | registerWorker id name secret =>
    cases ending with
    | ok _ =>
      obtain ⟨rfl, -⟩ := ended
      exact roster.secret?_put _ _
    | error _ => rfl
  | removeWorker id =>
    cases ending with
    | ok _ => exact roster.secret?_remove id
    | error _ => rfl
  | _ => rfl

omit [Runtime] in
/-- What was registered at a time that lasts, with joined texts, comes back from its record. -/
theorem IsProper.after (proper : roster.IsProper) (plain : operation.IsPlain) (lasts : time.Lasts)
    (ended : operation.Ended time ending) :
    IsProper (roster.after ⟨time, operation, ending⟩) := by
  cases operation with
  | registerWorker id name secret =>
    cases ending with
    | ok _ =>
      obtain ⟨-, named⟩ := ended
      exact proper.put ⟨⟨Text.isJoined_trim plain.1, Text.isJoined_trim plain.2.1⟩,
        ⟨Text.trim_trim id, Text.trim_trim name⟩, named, lasts⟩
    | error _ => exact proper
  | removeWorker id =>
    cases ending with
    | ok _ => exact proper.remove id
    | error _ => exact proper
  | _ => exact proper

end Roster

omit [Runtime] in
theorem Operation.IsPlain.isJoined {operation : Operation} (h : operation.IsPlain) :
    operation.IsJoined := by
  cases operation with
  | registerWorker id name secret => exact ⟨h.1, h.2.2⟩
  | _ => trivial

/-- Every operation leaves what the roster says once it was done. -/
theorem perform_enrolled (own : keeper.StoresIn folder place holds)
    (loyal : keeper.factory.IsLoyal keeper.stores folder place)
    (short : keeper.lock.holder.natAbs < Json.digitLimit)
    (h : Attended (Enrolled keeper folder place holds roster books) (·.IsLoyal folder place) scene)
    {operation : Operation} (plain : operation.IsPlain) :
    (keeper.perform operation).Ends scene fun ending after => ∃ left, Attended
      (Enrolled keeper folder place holds (roster.after ⟨scene.machine.now, operation, ending⟩) left)
      (·.IsLoyal folder place) after := by
  have keeping : Keeping keeper folder place holds none books scene :=
    ⟨h.machine.balanced, h.client⟩
  refine (SessionAction.Ends.and (perform_ended keeper scene operation)
    (.and (perform_books own loyal keeping h.machine.settled plain.isJoined)
      (perform_staffed own loyal short keeping h.machine.settled h.machine.staffed plain))).mono ?_
  rintro ending after ⟨ended, ⟨mark, left, hl, settled, secrets, -⟩, staffed⟩
  -- The books leave open what became of the marker, the workers on file tell that it is gone.
  obtain rfl : mark = none := hl.machine.mark.symm.trans staffed.mark
  refine ⟨left, ⟨hl.machine, settled, ?_, ?_, ?_⟩, hl.client⟩
  · rw [secrets, h.machine.secrets, roster.secret?_after ended]
  · rw [roster.records_after]
    exact staffed
  · exact h.machine.proper.after plain h.machine.staffed.clock ended

/-- The runs of a keeper from a machine on, with the time of every deed. Between them the clock is
set to any time that lasts, and a client of the kind that is expected may come in place of the
one that was made. -/
inductive Chronicle (keeper : Keeper) (expected : OAuth.Client → Prop) (start : Machine) :
    List Deed → Scene → Prop where
  | start : Chronicle keeper expected start [] ⟨none, start⟩
  | perform {deeds : List Deed} {scene after : Scene} {ending : Ending} (operation : Operation)
      (before : Chronicle keeper expected start deeds scene)
      (ends : (keeper.perform operation).exec scene.client scene.machine =
        (ending, after.client, after.machine)) :
      Chronicle keeper expected start (⟨scene.machine.now, operation, ending⟩ :: deeds) after
  | wait {deeds : List Deed} {scene : Scene} (now : Moment) (lasts : now.Lasts)
      (before : Chronicle keeper expected start deeds scene) :
      Chronicle keeper expected start deeds ⟨scene.client, { scene.machine with now }⟩
  | meet {deeds : List Deed} {scene : Scene} (client : Option OAuth.Client)
      (fits : ∀ c, client = some c → expected c)
      (before : Chronicle keeper expected start deeds scene) :
      Chronicle keeper expected start deeds ⟨client, scene.machine⟩

/-- A run goes on with an operation, however that ends. -/
theorem Chronicle.next {expected : OAuth.Client → Prop} {start : Machine} {deeds : List Deed}
    (before : Chronicle keeper expected start deeds scene) (operation : Operation) {ending : Ending}
    (ends : ((keeper.perform operation).exec scene.client scene.machine).1 = ending) :
    Chronicle keeper expected start (⟨scene.machine.now, operation, ending⟩ :: deeds)
      ⟨((keeper.perform operation).exec scene.client scene.machine).2.1,
        ((keeper.perform operation).exec scene.client scene.machine).2.2⟩ :=
  before.perform operation (by rw [← ends])

/-- What a run leaves is what its roster says. -/
theorem enrolled_of_run (own : keeper.StoresIn folder place holds)
    (loyal : keeper.factory.IsLoyal keeper.stores folder place)
    (short : keeper.lock.holder.natAbs < Json.digitLimit) {start : Machine}
    (fresh : Enrolled keeper folder place holds [] books start) {deeds : List Deed}
    (run : Chronicle keeper (·.IsLoyal folder place) start deeds scene)
    (plain : ∀ deed ∈ deeds, deed.operation.IsPlain) : ∃ left,
      Attended (Enrolled keeper folder place holds (.ofDeeds deeds) left)
        (·.IsLoyal folder place) scene := by
  induction run with
  | start => exact ⟨books, fresh, nofun⟩
  | perform operation before ends ih =>
    obtain ⟨left, hl⟩ := ih fun deed hd => plain deed (List.mem_cons_of_mem _ hd)
    have performed := perform_enrolled own loyal short hl (plain _ List.mem_cons_self)
    unfold SessionAction.Ends at performed
    rw [ends] at performed
    exact performed
  | wait now lasts before ih =>
    obtain ⟨left, hl⟩ := ih plain
    have h := hl.machine
    exact ⟨left, ⟨h.balanced.waited own lasts.sound, h.settled, h.secrets, h.staffed.waited lasts,
      h.proper⟩, hl.client⟩
  | meet client fits before ih =>
    obtain ⟨left, hl⟩ := ih plain
    exact ⟨left, hl.machine, fits⟩

/-- From an empty folder and without any secrets on, what is stored of workers after any run is
what its roster says, and listing, finding and removing workers go by the roster. -/
theorem roster_of_run {options : Options} {origin start : Machine}
    (made : (make folder options).exec origin = (.ok keeper, start))
    (ground : Ground origin folder place) (empty : ∀ name, origin.under place name = none)
    (clock : origin.now.Lasts) (service : options.secretService.IsJoined)
    (secrets : (options.secrets.getD (.ofVault (.inFolder folder))).Keeps folder place holds)
    (blank : holds origin .empty) (loyal : options.factory.IsLoyal keeper.stores folder place)
    (short : keeper.lock.holder.natAbs < Json.digitLimit) {deeds : List Deed}
    (run : Chronicle keeper (·.IsLoyal folder place) start deeds scene)
    (plain : ∀ deed ∈ deeds, deed.operation.IsPlain) :
    keeper.Reflects place holds (.ofDeeds deeds) scene.machine := by
  obtain ⟨own, fresh⟩ := balanced_of_make made ground empty clock.sound service secrets blank loyal
  have loyal : keeper.factory.IsLoyal keeper.stores folder place :=
    (madeIn_of_make made).1.factory ▸ loyal
  have now : start.now = origin.now := by
    have fixed := Machine.SameCircumstances.of_exec_eq made
    exact fixed.now
  have nothing : Record.entriesAt start place workersName = [] := by
    obtain ⟨entries, held, keys, -⟩ := fresh.workers
    rw [held.entriesAt_eq]
    exact List.eq_nil_iff_forall_not_mem.mpr fun pair hp =>
      (keys pair.1).mpr (List.mem_map_of_mem hp)
  obtain ⟨left, hl⟩ := enrolled_of_run own loyal short
    ⟨fresh, ⟨fun _ => by simp, rfl, fun _ hs => by cases hs⟩, rfl,
      ⟨fresh.ground, fresh.mark, nothing, now ▸ clock⟩, ⟨List.nodup_nil, nofun⟩⟩ run plain
  exact hl.machine.reflects own short

end

open scoped SessionKeeper.Runtime in
/-- A worker is registered on the empty folder, and then an account takes its session's place. The
worker is on the roster all the same. -/
theorem roster_of_login : ∃ scene,
    let deeds : List Deed := [
      ⟨steadyRegistered.2.2.now, .login "a" true,
        .ok (some (.account ⟨"did:plc:a", "a", some "p"⟩))⟩,
      ⟨steadyMade.2.now, .registerWorker "w" "W" "s", .ok (some steadyWorker)⟩]
    Chronicle steadyKeeper (·.IsLoyal ⟨"/", ["home"]⟩ ["home"]) steadyMade.2 deeds scene ∧
      (Roster.ofDeeds deeds).keys = ["w"] ∧ steadyKeeper.Reflects ["home"]
        (Secret.Vault.HoldsLedger ["home"]) (.ofDeeds deeds) scene.machine := by
  have registered := steadyRegistered_eq
  have entered := steadyEntered_eq
  have short : steadyKeeper.lock.holder.natAbs < Json.digitLimit := by decide +kernel
  have made : (make ⟨"/", ["home"]⟩ { factory := steadyFactory }).exec Machine.bare =
      (.ok steadyKeeper, steadyMade.2) := (eq_ok_get _ : steadyMade = _)
  unfold steadyEntered at entered
  unfold steadyRegistered at registered entered ⊢
  generalize steadyMade.2 = start at made registered entered ⊢
  generalize steadyKeeper = keeper at made registered entered short ⊢
  have first : Chronicle keeper (·.IsLoyal ⟨"/", ["home"]⟩ ["home"]) start [] ⟨none, start⟩ := .start
  have run := (first.next (.registerWorker "w" "W" "s") registered).next (.login "a" true) entered
  obtain ⟨own, -⟩ := madeIn_of_make made
  have blank : Secret.Vault.HoldsLedger ["home"] Machine.bare .empty :=
    ⟨[], .inl ⟨rfl, Machine.under_bare _⟩, rfl⟩
  refine ⟨_, run, rfl, roster_of_run made Machine.ground_bare Machine.under_bare
    (.of_universal (.inr rfl)) (by decide) (Secret.Vault.keeps _ _) blank
    (steadyFactory_isLoyal own.tokens) short run ?_⟩
  intro deed hd
  simp only [List.mem_cons, List.not_mem_nil, or_false] at hd
  rcases hd with rfl | rfl
  · trivial
  · exact ⟨by decide, by decide, by decide⟩

/-- What is left when operations were done one after the other, each at its time. -/
def doneAt [Runtime] (keeper : Keeper) : List (Moment × Operation) → Scene → Scene
  | [], scene => scene
  | (now, operation) :: rest, scene =>
    let ended := (keeper.perform operation).exec scene.client { scene.machine with now }
    keeper.doneAt rest ⟨ended.2.1, ended.2.2⟩

theorem Run.doneAt [Runtime] {expected : OAuth.Client → Prop} {start : Machine} {trace : Trace}
    (before : Run keeper expected start trace scene) (steps : List (Moment × Operation))
    (sound : ∀ step ∈ steps, step.1.IsSound) :
    ∃ trace, Run keeper expected start trace (keeper.doneAt steps scene) := by
  induction steps generalizing trace scene with
  | nil => exact ⟨trace, before⟩
  | cons step rest ih =>
    have waited := before.wait step.1 (sound step List.mem_cons_self)
    exact ih (waited.next step.2 rfl) fun other ho => sound other (List.mem_cons_of_mem _ ho)

open scoped SessionKeeper.Runtime in
/-- What is left on the empty folder of such operations. -/
def steadyDone (steps : List (Moment × Operation)) : Scene :=
  steadyKeeper.doneAt steps ⟨none, steadyMade.2⟩

/-- A time of the day on which the empty folder was made, with this offset. -/
def onTheDay (tick : Fin 86400000000) (offset : Option Int) : Moment :=
  ⟨Machine.bare.now.date, tick, offset⟩

theorem isSound_onTheDay (tick : Fin 86400000000) {offset : Option Int}
    (short : ∀ size ∈ offset, size.natAbs < Duration.dayMicros) :
    (onTheDay tick offset).IsSound := fun size hs => short size hs

open scoped SessionKeeper.Runtime in
/-- Runs that a roster does not tell, on the empty folder. Workers that are registered with and
without an offset cannot be listed; one whose id is a split pair of surrogates is listed and not
found by its id; and with an offset of half a minute, once a worker was removed, removing it again
fails. -/
theorem not_every_roster_is_told :
    let early := onTheDay Moment.midnight
    let late := onTheDay (Fin.last 86399999999)
    let splitPair := Secret.Vault.splitPair
    let mixed := [(early (some 0), Operation.registerWorker "v" "V" "s"),
      (late none, .registerWorker "w" "W" "s")]
    let split := [(early (some 0), Operation.registerWorker splitPair "W" "s")]
    let uneven := [(early (some 30000000), Operation.registerWorker "w" "W" "s")]
    (∀ steps ∈ [mixed, split, uneven], ∃ trace,
      Run steadyKeeper (·.IsLoyal ⟨"/", ["home"]⟩ ["home"]) steadyMade.2 trace (steadyDone steps)) ∧
    (steadyKeeper.listWorkers.exec (steadyDone mixed).machine).1.isOk = false ∧
    ((steadyKeeper.listWorkers.exec (steadyDone split).machine).1.map
      fun workers => workers.map Worker.name).toOption = some [Text.ofString "W"] ∧
    ((steadyKeeper.getWorker splitPair).exec (steadyDone split).machine).1.toOption = some none ∧
    let later := { (steadyDone uneven).machine with now := late (some 30000000) }
    let removed := (steadyKeeper.removeWorker "w").exec later
    removed.1.toOption = some true ∧
      ((steadyKeeper.removeWorker "w").exec removed.2).1.isOk = false := by
  refine ⟨fun steps hs => Run.doneAt .start steps fun step hm => ?_, ?_, ?_, ?_, ?_, ?_⟩
  · simp only [List.mem_cons, List.not_mem_nil, or_false] at hs
    rcases hs with rfl | rfl | rfl <;>
      simp only [List.mem_cons, List.not_mem_nil, or_false] at hm
    · rcases hm with rfl | rfl
      · exact isSound_onTheDay _ (by decide)
      · exact isSound_onTheDay _ (by decide)
    · exact hm ▸ isSound_onTheDay _ (by decide)
    · exact hm ▸ isSound_onTheDay _ (by decide)
  all_goals decide +kernel

end Keeper

end SessionKeeper
