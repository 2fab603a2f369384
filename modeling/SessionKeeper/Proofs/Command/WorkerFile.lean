import SessionKeeper.Proofs.Command.Report
import SessionKeeper.Proofs.Keeper.Listing
import SessionKeeper.Proofs.Record.Filters

/-!
# What becomes of a file of workers

Any object in the file of workers is put up with, but for the times of registration and too many
levels. Whoever lists the workers, looks one up or has them printed gets all that can be read in one
and the same order; or, when two of their times cannot be compared or the file is not read to its
end, everybody gets the same failure.
-/
namespace SessionKeeper.Command

open Record (Reads Spells StopsAt)
open Keeper (Orders Seeks)
open Request (glances_mute glances_reading)

section

variable [Runtime]

/-- Makes a keeper as the settings say, for a command about sessions or workers. -/
def Account.compose (factory : OAuth.Factory) : Action Keeper := do
  let settings ← Settings.loadResolved
  Action.ask (.emit (.threshold settings.logLevel))
  Keeper.ofSettings settings factory none

def IsWorkersLine (words : List Text) : Prop :=
  ∃ name found, accountProgram.read words = .ok (some (name, found)) ∧
    Account.ofArguments name found = .workers

/-- That a command line asks for the report on sessions and workers. -/
def IsSessionsLine (words : List Text) : Prop :=
  ∃ name found, diagnosisProgram.read words = .ok (some (name, found)) ∧
    Diagnosis.ofName name = .sessions

def workersDocument (listing : List Worker) : Json := .arr (listing.map Worker.publicRecord)

/-- The report on the index and the workers. -/
def sessionsDocument (content : Record.Content) (listing : List Worker) : Json :=
  .obj [("status", .ofString content.status.name),
    ("sessions", .arr (content.entries.map Prod.snd)), ("workers", workersDocument listing)]

/-- How a command that shows workers ends, told by how they are listed: it returns and prints a
document and nothing else, or it fails as the listing does and prints nothing. -/
inductive Shows (command : Action Nat) (document : List Worker → Json) (before : Machine) :
    Except Failure (List Worker) → Prop where
  | printed {listing : List Worker} {cs : List Char} {after : Machine}
      (returns : command.exec before = (.ok 0, after)) (made : (document listing).print = .ok cs)
      (prints : after.printed = before.printed ++ (Text.ofChars cs ++ Text.ofString "\n")) :
      Shows command document before (.ok listing)
  | stopped {failure : Failure} {after : Machine}
      (fails : command.exec before = (.error failure, after))
      (silent : after.printed = before.printed) : Shows command document before (.error failure)

/-- What becomes of a file of workers: how listing them ends decides how all else does that shows
workers. The report on sessions is printed if there is room for what the index holds. -/
structure Treats (keeper : Keeper) (machine listed : Machine)
    (outcome : Except Failure (List Worker)) : Prop where
  lists : keeper.listWorkers.exec machine = (outcome, listed)
  seeks : ∀ sought, Seeks keeper sought listed outcome ((keeper.getWorker sought).exec machine)
  workers : ∀ factory ready words, IsWorkersLine words →
    (Account.compose factory).exec machine = (.ok keeper, ready) →
      Shows (runAccount factory words) workersDocument machine outcome
  sessions : ∀ ready words content, IsSessionsLine words →
    compose.exec machine = (.ok keeper, ready) → Reads keeper.index.path machine (.ok content) →
      (Json.arr (content.entries.map Prod.snd)).fits Runtime.prints = true →
        Shows (runDiagnosis words) (sessionsDocument content) machine outcome

variable {keeper : Keeper} {machine ready : Machine} {members : Assoc Text Json}
  {outcome : Except Failure (List Worker)} {factory : OAuth.Factory} {words : List Text}
  {content : Record.Content}

omit [Runtime] in
theorem fits_workersDocument (listing : List Worker) : (workersDocument listing).fits 2 = true := by
  rw [workersDocument, Json.fits_arr]
  intro record hr
  obtain ⟨worker, -, rfl⟩ := List.mem_map.mp hr
  rfl

omit [Runtime] in
theorem fits_sessionsDocument {room : Nat} (two : 2 ≤ room)
    (fits : (Json.arr (content.entries.map Prod.snd)).fits room = true) (listing : List Worker) :
    (sessionsDocument content listing).fits (room + 1) = true := by
  rw [sessionsDocument, Json.fits_obj]
  simp only [List.mem_cons, List.not_mem_nil, or_false, forall_eq_or_imp, forall_eq]
  exact ⟨Json.fits_str _, fits, Json.fits_of_le two (fits_workersDocument listing)⟩

theorem Account.compose_asks {P : Request → Prop} (asides : Request.Asides P)
    (probes : ∀ path, P (.probe path)) (files : ∀ path, P (.readFile path))
    (emits : ∀ level, P (.emit (.threshold level))) (factory : OAuth.Factory) :
    (compose factory).Asks P :=
  (Settings.loadResolved_asks asides (probes _) (files _)).bind fun _ =>
    .bind (.ask (emits _)) fun _ => Keeper.ofSettings_asks asides (probes _) (files _) _ _

/-- Making a keeper for such a command prints nothing and leaves everything as it is. -/
theorem Account.looks_of_compose (composed : (compose factory).exec machine = (.ok keeper, ready)) :
    ready.printed = machine.printed ∧ machine.Quiet ready := by
  have mute : (compose factory).Asks Request.IsMute :=
    compose_asks glances_mute.asides (fun _ => trivial) (fun _ => trivial) (fun _ => trivial)
      factory
  have reading : (compose factory).Asks Request.IsReading :=
    compose_asks glances_reading.asides (fun _ => trivial) (fun _ => trivial) (fun _ => trivial)
      factory
  have silent := mute.printed machine
  have quiet := Machine.Quiet.of_passive (Action.ChangesNothing.of_asks reading).isPassive machine
  rw [composed] at silent quiet
  exact ⟨silent, quiet⟩

theorem runAccount_exec {name : String} {found : Arguments}
    (told : accountProgram.read words = .ok (some (name, found)))
    (composed : (Account.compose factory).exec machine = (.ok keeper, ready)) :
    (runAccount factory words).exec machine =
      match ((Account.ofArguments name found).perform keeper).alone.exec ready with
      | (.ok code, after) => (.ok code, after)
      | (.error failure, after) => (Account.explain failure).exec after := by
  rw [Account.compose, Action.exec_bind] at composed
  rw [runAccount, told]
  rcases loaded : Settings.loadResolved.exec machine with ⟨failure | settings, between⟩ <;>
    rw [loaded] at composed
  · cases composed
  · have set : between.answer (.emit (.threshold settings.logLevel)) =
        ((), between.tell (.threshold settings.logLevel)) := rfl
    have made : (Keeper.ofSettings settings factory none).exec
        (between.tell (.threshold settings.logLevel)) = (.ok keeper, ready) :=
      (Action.exec_ask_bind set).symm.trans composed
    refine (Action.exec_bind_ok loaded).trans ((Action.exec_ask_bind set).trans
      ((Action.exec_tryCatch _ _ _).trans ?_))
    rw [Action.exec_bind_ok made]
    rcases ((Account.ofArguments name found).perform keeper).alone.exec ready with
      ⟨_ | _, after⟩ <;> rfl

theorem runAccount_shows (asks : IsWorkersLine words)
    (composed : (Account.compose factory).exec machine = (.ok keeper, ready)) {left : Machine}
    (listed : keeper.listWorkers.exec ready = (outcome, left))
    (goesThrough : ∀ failure, outcome = .error failure → Account.explain failure = throw failure) :
    Shows (runAccount factory words) workersDocument machine outcome := by
  obtain ⟨name, found, told, command⟩ := asks
  have ran := runAccount_exec told composed
  have silent : left.printed = machine.printed := by
    have mute : keeper.listWorkers.Asks Request.IsMute :=
      Keeper.listWorkers_asks glances_mute trivial
    have lists := mute.printed ready
    rw [listed] at lists
    exact lists.trans (Account.looks_of_compose composed).1
  rw [command, SessionAction.exec_alone, Account.perform, SessionAction.exec_bind,
    SessionAction.exec_lift, listed] at ran
  cases outcome with
  | ok listing =>
    obtain ⟨cs, after, made, shown, -, prints⟩ :=
      Account.printDocument_exec (fits_report (fits_workersDocument listing)) left
    rw [silent] at prints
    refine .printed (ran.trans ?_) made prints
    rw [workersDocument] at shown
    dsimp only
    rw [SessionAction.exec_bind, SessionAction.exec_lift, shown]
    rfl
  | error failure =>
    refine .stopped (ran.trans ?_) silent
    dsimp only
    rw [goesThrough failure rfl]
    rfl

/-- The report reads the index before it shows the workers. -/
theorem runDiagnosis_shows (asks : IsSessionsLine words)
    (composed : compose.exec machine = (.ok keeper, ready))
    (index : Reads keeper.index.path machine (.ok content))
    (fits : (Json.arr (content.entries.map Prod.snd)).fits Runtime.prints = true)
    (lists : ∀ m, machine.Quiet m → ∃ left, keeper.listWorkers.exec m = (outcome, left)) :
    Shows (runDiagnosis words) (sessionsDocument content) machine outcome := by
  obtain ⟨name, found, told, command⟩ := asks
  have quiet := quiet_of_compose composed
  have loaded : keeper.index.load.exec ready = (.ok content, (keeper.index.load.exec ready).2) :=
    Prod.ext ((Record.read_reads keeper.index.path ready _).mpr (index.of_quiet quiet)) rfl
  have still : ready.Quiet (keeper.index.load.exec ready).2 :=
    .of_passive (Record.read_passive keeper.index.path) ready
  obtain ⟨left, listed⟩ := lists _ (quiet.trans still)
  have makes := compose_mute.printed machine
  have finds := (Diagnosis.examine_mute keeper (.ofName name)).printed ready
  rw [composed] at makes
  have examined : ((Diagnosis.ofName name).examine keeper).exec ready =
      (outcome.map (sessionsDocument content), left) := by
    rw [command]
    exact (Action.exec_bind_ok loaded).trans (Action.exec_bind_pure listed _)
  rw [examined] at finds
  cases outcome with
  | ok listing =>
    have two : 2 ≤ Runtime.prints :=
      (by decide : 2 ≤ 8).trans (Runtime.roomy.trans Runtime.reads_le_prints)
    obtain ⟨after, ⟨returns, cs, made, prints⟩, -⟩ :=
      reports_of_examine told composed examined (fits_sessionsDocument two fits listing)
    exact .printed returns made prints
  | error failure =>
    refine .stopped ?_ (finds.trans makes)
    rw [runDiagnosis_eq told, Action.exec_bind_ok composed, Action.exec_bind_error examined]

/-- How the file is treated when listing the workers ends alike wherever nothing was changed. -/
theorem treats_of_lists {listed : Machine}
    (lists : keeper.listWorkers.exec machine = (outcome, listed))
    (alike : ∀ m, machine.Quiet m → ∃ left, keeper.listWorkers.exec m = (outcome, left))
    (goesThrough : ∀ failure, outcome = .error failure → Account.explain failure = throw failure) :
    Treats keeper machine listed outcome where
  lists := lists
  seeks := Keeper.getWorker_seeks lists
  workers factory ready words asks composed := by
    obtain ⟨left, again⟩ := alike ready (Account.looks_of_compose composed).2
    exact runAccount_shows asks composed again goesThrough
  sessions _ _ _ asks composed index fits := runDiagnosis_shows asks composed index fits alike

end

open scoped SessionKeeper.Runtime

/-- The record of a worker, with the text that tells its time. -/
def workerRecord (id created : Text) : Json :=
  .obj [("worker_id", .str id), ("public_name", .str id), ("created_at", .str created)]

/-- A machine with these members in the file of workers. -/
def staffedBy (members : Assoc Text Json) : Machine :=
  Ground.withFile furnished ["home"] Keeper.workersName Record.privateMode
    (Record.octetsIn (.obj members))

theorem staffedBy_reads (members : Assoc Text Json) (filled : members ≠ [])
    (regular : (Json.obj members).IsRegular 8) :
    Reads ((⟨"/", ["home"]⟩ : Path).child Keeper.workersName) (staffedBy members)
      (.ok (.found members)) :=
  Record.reads_withFile ground_furnished ⟨by decide, by decide⟩ (Machine.under_bare _) filled
    (regular.of_le (Runtime.roomy.trans (Nat.le_succ _)))

def earlyWorker : Worker := ⟨"a", "a", none, Machine.bare.now⟩

/-- A worker that was registered at midnight an hour to the west, which is later. -/
def lateWorker : Worker :=
  ⟨"b", "b", none, { Machine.bare.now with offset := some (-3600000000) }⟩

/-- The records of the two, that of the later one first, and a number. -/
def evenMembers : Assoc Text Json :=
  [("b", workerRecord "b" "2024-02-29T00:00:00-01:00"),
    ("a", workerRecord "a" "2024-02-29T00:00:00Z"), ("c", .int 1)]

/-- Two workers, of which one has a time without an offset. -/
def unevenMembers : Assoc Text Json :=
  [("a", workerRecord "a" "2024-01-01T00:00:00"), ("w", workerRecord "w" "2025-06-01T00:00:00Z")]

end SessionKeeper.Command
