import SessionKeeper.Command.Diagnosis
import SessionKeeper.Proofs.Script.Asks

/-!
# What commands ask for

Next to glances, loading the settings asks for the environment file, and loading the metadata for
its file. The commands for diagnosis that remove nothing ask for those, for the files that have the
names of markers and for the record files that they report on.
-/
namespace SessionKeeper

open Request (Asides Glances Logs)

variable {P : Request → Prop}

namespace Settings

theorem loadFile_asks (logs : Logs P) (probe : P (.probe environmentFile))
    (file : P (.readFile environmentFile)) (environment : Assoc Text Text) :
    (loadFile environment).Asks P := by
  refine .bind (.ask probe) fun answer => ?_
  split
  · refine .bind (.ask file) fun content => .bind (.ofFile content) fun octets => ?_
    split
    · exact .throw _
    · exact .bind (.forM fun _ _ => .ask (logs _)) fun _ => .pure _
  · exact .pure _

theorem load_asks (asides : Asides P) (probe : P (.probe environmentFile))
    (file : P (.readFile environmentFile)) : load.Asks P :=
  .bind (.ask (asides _ trivial)) fun environment =>
    (loadFile_asks asides.logs probe file environment).bind fun _ => .ofReading _ _

theorem accountHome_asks (asides : Asides P) (name : String) : (do
    let found : Option String ← Action.ask (.homeOf name)
    match found with
    | some path => return path
    | none => throw .homeUnknown : Action String).Asks P := by
  refine .bind (.ask (asides _ trivial)) fun found => ?_
  split
  · exact .pure _
  · exact .throw _

theorem home_asks (asides : Asides P) (user : String) : (home user).Asks P := by
  refine .bind (.ask (asides _ trivial)) fun environment => ?_
  dsimp only
  split
  · exact accountHome_asks asides user
  · split
    · exact .pure _
    · exact accountHome_asks asides "root"

theorem expandHome_asks (asides : Asides P) (path : Path) : (expandHome path).Asks P := by
  unfold expandHome
  split
  · split
    · split
      · exact .pure _
      · refine (home_asks asides _).bind fun start => ?_
        dsimp only
        split
        · exact .throw _
        · exact .pure _
    · exact .pure _
  · exact .pure _

theorem loadResolved_asks (asides : Asides P) (probe : P (.probe environmentFile))
    (file : P (.readFile environmentFile)) : loadResolved.Asks P :=
  (load_asks asides probe file).bind fun _ => (expandHome_asks asides _).bind fun _ =>
    .bind (.ask (asides _ trivial)) fun _ => .pure _

end Settings

variable [Runtime]

theorem OAuth.ClientMetadata.load_asks {folder : Path} (probe : P (.probe (folder.child fileName)))
    (file : P (.readFile (folder.child fileName))) : (load folder).Asks P := by
  refine .bind (.ask probe) fun answer => ?_
  split
  · refine .bind (.ask file) fun content => .bind (.ofFile content) fun octets => ?_
    split
    · exact .pure _
    · exact .throw _
  · exact .pure _
  · exact .pure _
  · exact .throw _
  · exact .pure _

theorem Secret.Backend.resolve_asks (asides : Asides P) (folder : Path)
    (explicit : Option Backend) (usePlatform : Bool) :
    (resolve folder explicit usePlatform).Asks P := by
  have vault : (do
      Action.log .debug .vault "Using file credential vault"
      return ofVault (.inFolder folder) : Action Backend).Asks P :=
    .bind (.ask (asides.logs _)) fun _ => .pure _
  cases explicit with
  | some backend => exact .pure _
  | none =>
    unfold resolve
    cases usePlatform with
    | false => exact vault
    | true =>
      refine .bind (.bind (.ask (asides _ trivial)) fun _ => .pure _) fun found => ?_
      cases found with
      | some backend => exact .bind (.ask (asides.logs _)) fun _ => .pure _
      | none => exact vault

namespace Keeper

theorem make_asks (asides : Asides P) (folder : Path) (options : Options) :
    (make folder options).Asks P := by
  have lasts (result : Except DurationFault Duration) : (ofDuration result).Asks P := by
    cases result with
    | ok duration => exact .pure _
    | error fault => exact .throw _
  have rest (secrets : Secret.Backend) :
      (make folder { options with secrets := some secrets }).Asks P :=
    (lasts _).bind fun _ => .bind (.ask (asides _ trivial)) fun _ =>
      (lasts _).bind fun _ => .pure _
  obtain ⟨factory, keyserver, secrets, service, metadata, lifetime, staleAfter⟩ := options
  cases secrets with
  | some secrets => exact rest secrets
  | none => exact (Secret.Backend.resolve_asks asides folder none false).bind rest

theorem ofSettings_asks (asides : Asides P) {settings : Settings}
    (probe : P (.probe (settings.folder.child OAuth.ClientMetadata.fileName)))
    (file : P (.readFile (settings.folder.child OAuth.ClientMetadata.fileName)))
    (factory : OAuth.Factory) (explicit : Option Secret.Backend) :
    (ofSettings settings factory explicit).Asks P :=
  (Secret.Backend.resolve_asks asides _ _ _).bind fun _ =>
    (OAuth.ClientMetadata.load_asks probe file).bind fun _ => make_asks asides _ _

omit [Runtime] in
theorem oldestFirst_asks (workers : List Worker) : (oldestFirst workers).Asks P := by
  unfold oldestFirst
  split
  · exact .pure _
  · exact .throw _

theorem listWorkers_asks (glances : Glances P) {keeper : Keeper}
    (file : P (.readFile keeper.workers.path)) : keeper.listWorkers.Asks P :=
  .bind (.ask (glances _ trivial)) fun _ =>
    (Record.Store.entries_asks glances.logs file).bind fun _ =>
      (readAll_asks glances.logs _ _ _).bind fun _ => oldestFirst_asks _

end Keeper

omit [Runtime] in
theorem Record.Expiring.judge_asks (now : Moment) (values : List Json) : (judge now values).Asks P := by
  unfold judge
  split
  · exact .pure _
  · exact .throw _

namespace Command

theorem Account.printDocument_asks (emits : ∀ output, P (.emit output)) (document : Json) :
    (printDocument document).Asks P := by
  unfold printDocument
  split
  · exact .ask (emits _)
  · exact .throw _

omit [Runtime] in
theorem Account.explain_asks (emits : ∀ output, P (.emit output)) (failure : Failure) : (explain failure).Asks P := by
  have refuses (complaint : Text) (hint : Option Text) : (refuse complaint hint).Asks P := by
    refine .bind (.ask (emits _)) fun _ => ?_
    cases hint with
    | some hint => exact .bind (.ask (emits _)) fun _ => .pure _
    | none => exact .pure _
  unfold explain
  split
  · exact refuses _ _
  · split
    · exact refuses _ _
    · exact .throw _

/-- A report comes from the markers, the index, the workers and the authorizations under way. -/
theorem Diagnosis.examine_asks (glances : Glances P) {keeper : Keeper}
    (markers : ∀ name, Lock.isMarkerName name = true →
      P (.readFile (keeper.lock.folder.child name)))
    (index : P (.readFile keeper.index.path)) (workers : P (.readFile keeper.workers.path))
    (states : P (.readFile keeper.stores.states.store.path)) {command : Diagnosis}
    (looks : command ≠ .pruneLocks) : (command.examine keeper).Asks P := by
  have clock : P .clock := glances _ trivial
  cases command with
  | locks =>
    refine .bind (.ask clock) fun now => (Lock.markers_asks glances markers).bind fun found => ?_
    refine .bind (.mapM fun row _ => ?_) fun _ => .pure _
    obtain ⟨path, _ | marker⟩ := row
    · exact .pure _
    · exact (Lock.ageOf_asks _ _).bind fun _ => (Lock.isStale_asks clock _ _).bind fun _ => .pure _
  | pruneLocks => exact absurd rfl looks
  | sessions =>
    exact (Record.read_asks glances.logs index).bind fun _ =>
      (Keeper.listWorkers_asks glances workers).bind fun _ => .pure _
  | states =>
    have live : keeper.stores.states.entries.Asks P := .bind (.ask clock) fun _ =>
      (Record.Store.entries_asks glances.logs states).bind fun entries =>
        (Record.Expiring.judge_asks _ _).bind fun _ => .pure _
    exact (Record.read_asks glances.logs states).bind fun _ => live.bind fun _ => .pure _

theorem Diagnosis.pruneAll_asks (glances : Glances P) {lock : Lock}
    (markers : ∀ name, Lock.isMarkerName name = true → P (.readFile (lock.folder.child name)))
    (removes : ∀ path, P (.unlink path)) : (pruneAll lock).Asks P := by
  have removed (path : Path) (useless : Bool) : (do
      if useless then
        let _ ← Record.removeFile path
        return some path.name
      else return none : Action (Option String)).Asks P := by
    split
    · refine .bind (.bind (.ask (removes path)) fun answer => ?_) fun _ => .pure _
      split
      · exact .pure _
      · exact .pure _
      · exact .throw _
    · exact .pure _
  refine (Lock.markers_asks glances markers).bind fun found => .bind (.mapM fun row _ => ?_)
    fun _ => .pure _
  obtain ⟨path, _ | marker⟩ := row
  · exact removed path true
  · exact (Lock.isStale_asks (glances _ trivial) lock marker).bind (removed path)

end Command

end SessionKeeper
