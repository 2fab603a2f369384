import SessionKeeper.Proofs.Command.Unchanged

/-!
# How a report is printed

A command for diagnosis makes a keeper as the settings say, finds out what to report and prints
that. Making the keeper only looks, and it looks at nothing but the circumstances, the environment
file and the metadata of the client: where these are the same, the same keeper is made. When none
can be made, the command stops there. What is printed is the report and nothing else, since all
that finds it out writes notes at most.
-/
namespace SessionKeeper

open Request (glances_reading)
open SessionKeeper.Action (ChangesNothing)

/-- That a request prints nothing. -/
def Request.IsMute : Request → Prop
  | .emit (.print _) => False
  | .readSecret _ => False
  | _ => True

theorem Request.glances_mute : Request.Glances Request.IsMute := by
  intro request glance
  cases request
  case emit output => cases output <;> first | exact trivial | exact glance.elim
  all_goals first | exact trivial | exact glance.elim

open Request (glances_mute)

def Machine.printed (machine : Machine) : Text := SessionKeeper.printed machine.transcript

theorem Machine.printed_tell (machine : Machine) (output : Output) :
    (machine.tell output).printed = machine.printed ++ SessionKeeper.printed [output] :=
  List.flatMap_append

theorem Machine.printed_answer (machine : Machine) {request : Request} (mute : request.IsMute) :
    (machine.answer request).2.printed = machine.printed := by
  have edits (result : Except FileFault Tree) : (machine.edit result).2.printed = machine.printed := by
    cases result <;> rfl
  have creates (path : Path) (mode : Nat) :
      (machine.create path mode).2.printed = machine.printed := by
    unfold Machine.create
    split <;> rfl
  cases request
  case makeDirectory => exact edits _
  case setMode => exact edits _
  case rename => exact edits _
  case unlink => exact edits _
  case createFile => exact creates _ _
  case createTemporary =>
    rw [Machine.answer_createTemporary]
    exact creates _ _
  case readLine =>
    show machine.nextLine.2.printed = _
    unfold Machine.nextLine
    split <;> rfl
  case readSecret => exact mute.elim
  case post request => exact (machine.printed_tell _).trans (List.append_nil _)
  case emit output =>
    cases output
    case print => exact mute.elim
    all_goals exact (machine.printed_tell _).trans (List.append_nil _)
  all_goals rfl

theorem Action.Asks.printed {α : Type} {action : Action α} (h : action.Asks Request.IsMute)
    (machine : Machine) : (action.exec machine).2.printed = machine.printed := by
  suffices general : ∀ (script : Script (Except Failure α)) (m : Machine),
      script.Asks Request.IsMute → (script.run m).2.printed = m.printed from
    general action.run machine h
  intro script
  induction script with
  | done outcome => exact fun _ _ => rfl
  | ask request next ih =>
    intro m asks
    exact (ih _ _ (asks.2 _)).trans (m.printed_answer asks.1)

variable [Runtime]

namespace Keeper

theorem lock_ofSettings {settings : Settings} {factory : OAuth.Factory}
    {explicit : Option Secret.Backend} {keeper : Keeper} {machine after : Machine}
    (made : (ofSettings settings factory explicit).exec machine = (.ok keeper, after)) :
    keeper.lock.folder = settings.folder := by
  have any {α : Type} {x : Action α} {m : Machine} : x.Yields m fun _ _ => True :=
    fun _ _ _ => trivial
  have yields : (ofSettings settings factory explicit).Yields machine fun keeper _ =>
      keeper.lock.folder = settings.folder :=
    .bind any fun _ _ _ => .bind any fun _ _ _ => fun _ _ made => (madeIn_of_make made).1.lock
  exact yields keeper after made

end Keeper

namespace Command

/-- Makes a keeper as the settings say, for a command for diagnosis. -/
def compose : Action Keeper := do
  let settings ← Settings.load
  Keeper.ofSettings settings OAuth.unavailable none

theorem runDiagnosis_eq {words : List Text} {name : String} {found : Arguments}
    (told : diagnosisProgram.read words = .ok (some (name, found))) :
    runDiagnosis words = compose >>= fun keeper => do
      Account.printDocument (← (Diagnosis.ofName name).examine keeper)
      return 0 := by
  rw [runDiagnosis, told, compose, bind_assoc]

theorem compose_changesNothing : compose.ChangesNothing :=
  (ChangesNothing.of_asks (Settings.load_asks glances_reading.asides trivial trivial)).bind
    fun _ => .of_asks (Keeper.ofSettings_asks glances_reading.asides trivial trivial _ _)

theorem compose_mute : compose.Asks Request.IsMute :=
  (Settings.load_asks glances_mute.asides trivial trivial).bind
    fun _ => Keeper.ofSettings_asks glances_mute.asides trivial trivial _ _

/-- That a path leads to the same on two machines. -/
def SameAt (path : Path) (m n : Machine) : Prop :=
  n.tree.find n.directory path = m.tree.find m.directory path

/-- That two machines look the same to who only looks at some paths. -/
structure SameSources (paths : List Path) (m n : Machine) : Prop where
  circumstances : m.SameCircumstances n
  sources : ∀ path ∈ paths, SameAt path m n

/-- That a request is aside, or looks at one of some paths. -/
def IsSourced (paths : List Path) : Request → Prop
  | .probe path => path ∈ paths
  | .readFile path => path ∈ paths
  | request => request.IsAside

omit [Runtime] in
theorem asides_sourced (paths : List Path) : Request.Asides (IsSourced paths) := by
  intro request aside
  cases request <;> first | exact aside | exact aside.elim

omit [Runtime] in
/-- Such requests are answered alike where these paths lead to the same. -/
theorem SameSources.answer {paths : List Path} {m n : Machine} (same : SameSources paths m n)
    (request : Request) (sourced : IsSourced paths request) :
    (n.answer request).1 = (m.answer request).1 ∧
      SameSources paths (m.answer request).2 (n.answer request).2 := by
  have fixed := same.circumstances
  cases request
  case readFile path =>
    have here := same.sources path sourced
    exact ⟨congrArg (· >>= _) here, same⟩
  case probe path =>
    have here := same.sources path sourced
    exact ⟨congrArg (· >>= _) here, same⟩
  case clock => exact ⟨fixed.now, same⟩
  case processId => exact ⟨fixed.processId, same⟩
  case environment => exact ⟨fixed.environment, same⟩
  case homeOf user => exact ⟨congrArg (Assoc.value? · user) fixed.homes, same⟩
  case workingDirectory => exact ⟨congrArg (Path.mk "/") fixed.directory, same⟩
  case hasKeychain =>
    refine ⟨?_, same⟩
    show (_ : Bool) = _
    rw [Machine.answer, fixed.offer]
    rfl
  case emit output =>
    exact ⟨rfl, ⟨fixed.1, fixed.2, fixed.3, fixed.4, fixed.5, fixed.6, fixed.7⟩, same.sources⟩
  all_goals exact sourced.elim

omit [Runtime] in
/-- What is asked by who looks at nothing else comes out the same. -/
theorem SameSources.exec {paths : List Path} {m n after : Machine} (same : SameSources paths m n)
    {α : Type} {action : Action α} (asks : action.Asks (IsSourced paths)) {a : α}
    (ran : action.exec m = (.ok a, after)) :
    ∃ again, action.exec n = (.ok a, again) ∧ SameSources paths after again := by
  have agrees : Action.Agrees (.ofRelation (SameSources paths)) Eq action action :=
    .of_asks (fun m n (alike : SameSources paths m n) request sourced =>
      ⟨(alike.answer request sourced).1, (alike.answer request sourced).2, trivial⟩) asks
  have ends := agrees.exec (m := m) (n := n) same
  rw [ran] at ends
  exact ⟨(action.exec n).2, Prod.ext ends.1.eq.symm rfl, ends.2⟩

theorem compose_again {keeper : Keeper} {m n ready : Machine}
    (composed : compose.exec m = (.ok keeper, ready))
    (same : SameSources [Settings.environmentFile,
      keeper.lock.folder.child OAuth.ClientMetadata.fileName] m n) :
    ∃ again, compose.exec n = (.ok keeper, again) := by
  rw [compose, Action.exec_bind] at composed
  rcases loaded : Settings.load.exec m with ⟨failure | settings, between⟩ <;> rw [loaded] at composed
  · cases composed
  · dsimp only at composed
    rw [Keeper.lock_ofSettings composed] at same
    obtain ⟨left, loads, same⟩ := same.exec
      (Settings.load_asks (asides_sourced _) (by simp [IsSourced]) (by simp [IsSourced])) loaded
    obtain ⟨again, makes, -⟩ := same.exec
      (Keeper.ofSettings_asks (asides_sourced _) (by simp [IsSourced]) (by simp [IsSourced]) _ _)
      composed
    exact ⟨again, (Action.exec_bind_ok loads).trans makes⟩

theorem Diagnosis.examine_mute (keeper : Keeper) (command : Diagnosis) :
    (command.examine keeper).Asks Request.IsMute := by
  by_cases prunes : command = .pruneLocks
  · subst prunes
    exact pruneAll_asks glances_mute (fun _ _ => trivial) fun _ => trivial
  · exact examine_asks glances_mute (fun _ _ => trivial) trivial trivial trivial prunes

/-- That a command line returns and prints a document and nothing else. -/
structure Reports (words : List Text) (document : Json) (before after : Machine) : Prop where
  returns : (runDiagnosis words).exec before = (.ok 0, after)
  prints : ∃ cs, document.print = .ok cs ∧
    after.printed = before.printed ++ (Text.ofChars cs ++ Text.ofString "\n")

variable {words : List Text} {name : String} {found : Arguments} {keeper : Keeper}
  {start ready left : Machine}

theorem quiet_of_compose (composed : compose.exec start = (.ok keeper, ready)) :
    start.Quiet ready := by
  have quiet := Machine.Quiet.of_passive compose_changesNothing.isPassive start
  rwa [composed] at quiet

theorem Account.printDocument_exec {document : Json}
    (printable : document.fits (Runtime.prints + 1) = true) (machine : Machine) :
    ∃ cs after, document.print = .ok cs ∧
      (printDocument document).exec machine = (.ok (), after) ∧ machine.Quiet after ∧
      after.printed = machine.printed ++ (Text.ofChars cs ++ Text.ofString "\n") := by
  have printed : document.print = .ok (document.printAt 0) := by
    rw [Json.print, Json.limit?_eq_none.mpr printable]
  have shown : (printDocument document).exec machine =
      (.ok (), machine.tell (.print (Text.ofChars (document.printAt 0) ++ Text.ofString "\n"))) := by
    rw [printDocument, printed]
    rfl
  refine ⟨_, _, printed, shown, ⟨Machine.tell_fixed _ (.refl machine), rfl⟩, ?_⟩
  rw [Machine.printed_tell]
  exact congrArg _ (List.append_nil _)

theorem reports_of_examine (told : diagnosisProgram.read words = .ok (some (name, found)))
    (composed : compose.exec start = (.ok keeper, ready)) {document : Json}
    (examined : ((Diagnosis.ofName name).examine keeper).exec ready = (.ok document, left))
    (printable : document.fits (Runtime.prints + 1) = true) :
    ∃ after, Reports words document start after ∧ left.Quiet after := by
  have makes := compose_mute.printed start
  have finds := (Diagnosis.examine_mute keeper (.ofName name)).printed ready
  rw [composed] at makes
  rw [examined] at finds
  obtain ⟨cs, after, printed, shown, quiet, added⟩ := Account.printDocument_exec printable left
  refine ⟨after, ⟨?_, cs, printed, ?_⟩, quiet⟩
  · rw [runDiagnosis_eq told, Action.exec_bind_ok composed, Action.exec_bind_ok examined,
      Action.exec_bind_ok shown]
    rfl
  · rw [added, finds, makes]

/-- For a report of two levels there is always room. -/
theorem fits_report {document : Json} (fits : document.fits 2 = true) :
    document.fits (Runtime.prints + 1) = true :=
  Json.fits_prints (Json.fits_of_le (Nat.le_succ _) (Json.fits_roomy fits (by decide)))

theorem runDiagnosis_failed (told : diagnosisProgram.read words = .ok (some (name, found)))
    {failure : Failure} (failed : compose.exec start = (.error failure, ready)) :
    (runDiagnosis words).exec start = (.error failure, ready) := by
  rw [runDiagnosis_eq told]
  exact Action.exec_bind_error failed

/-- A machine with an empty folder that the settings name. -/
def furnished : Machine := { Machine.bare with environment := [("ROOMY_CLI_DIR", "/home")] }

omit [Runtime] in
theorem ground_furnished : Ground furnished ⟨"/", ["home"]⟩ ["home"] :=
  ⟨Machine.ground_bare.leads, Machine.ground_bare.stands, Machine.ground_bare.numbered⟩

end Command

end SessionKeeper
