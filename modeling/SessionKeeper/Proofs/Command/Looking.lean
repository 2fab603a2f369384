import SessionKeeper.Proofs.Command.Asking
import SessionKeeper.Proofs.Secret.Veiled

/-!
# Commands that look

The commands that show the session, the workers, the locks and the authorizations under way print
the same on twins. Loading the settings and the client's metadata reads no vault, nor do the
commands for diagnosis, which take whole records from the index and from no other file; the session
that is shown is read with its secret, but what is printed of it only tells whether there is one.
-/
namespace SessionKeeper

open Secret (SameEmptiness)
open SessionKeeper.Action (Agrees)

theorem Request.glances_blind : Request.Glances Request.IsBlind := by
  intro request glance
  cases request <;> trivial

open Request (glances_blind)

theorem Settings.environmentFile_isPlain : environmentFile.IsPlain :=
  ⟨⟨"", []⟩, ".env", by decide, by decide, by decide⟩

variable [Runtime]

theorem OAuth.ClientMetadata.load_blind (folder : Path) :
    (OAuth.ClientMetadata.load folder).Asks Request.IsBlind := by
  have isOpen : IsOpenName fileName := ⟨by decide, by decide⟩
  exact load_asks trivial (isOpen.plain folder)

namespace Lock

omit [Runtime] in
theorem isOpenName_of_isMarkerName {name : String} (h : isMarkerName name = true) :
    IsOpenName name := by
  rw [isMarkerName] at h
  simp only [Bool.and_eq_true] at h
  obtain ⟨⟨-, start⟩, -⟩ := h
  rw [List.isPrefixOf_iff_prefix] at start
  have first : name.toList.head? = some 'l' := by
    obtain ⟨rest, hr⟩ := start
    rw [← hr]
    rfl
  constructor
  · rintro rfl
    exact absurd first (by decide)
  · rintro rfl
    exact absurd first (by decide)

omit [Runtime] in
/-- Markers are no files of a vault. -/
theorem marker_isPlain (folder : Path) (name : String) (h : isMarkerName name = true) :
    (folder.child name).IsPlain := (isOpenName_of_isMarkerName h).plain folder

end Lock

namespace Keeper

/-- That all files of a keeper but the vault's have names of their own. -/
structure IsOpen (keeper : Keeper) : Prop where
  index : keeper.index.path.IsPlain
  workers : keeper.workers.path.IsPlain
  states : keeper.stores.states.store.path.IsPlain

end Keeper

namespace Command

/-- What a command for diagnosis finds out does not come from a vault. -/
theorem Diagnosis.examine_blind {keeper : Keeper} (h : keeper.IsOpen) (command : Diagnosis) :
    (command.examine keeper).Asks Request.IsBlind := by
  by_cases prunes : command = .pruneLocks
  · subst prunes
    exact pruneAll_asks glances_blind (Lock.marker_isPlain _) fun _ => trivial
  · exact examine_asks glances_blind (Lock.marker_isPlain _) h.index h.workers h.states prunes

end Command

section Veiled

variable {directory : Location} {veil : Veil}

/-- That a backend is one of those that are resolved. -/
inductive Secret.Backend.IsKnown : Secret.Backend → Prop where
  | vault (vault : Secret.Vault) : IsKnown (.ofVault vault)
  | platform : IsKnown .platform

theorem Secret.Backend.IsKnown.get?_veiled {secrets : Secret.Backend} (h : secrets.IsKnown)
    (service account : Text) : Agrees (.veiled directory veil) (Option.Rel SameEmptiness)
      (secrets.get? service account) (secrets.get? service account) := by
  cases h with
  | vault vault => exact vault.get?_veiled service account
  | platform => exact platform_get?_veiled service account

theorem Secret.Backend.resolve_veiled (folder : Path) (usePlatform : Bool) :
    Agrees (.veiled directory veil) (fun a b => b = a ∧ a.IsKnown) (resolve folder none usePlatform)
      (resolve folder none usePlatform) := by
  have vault : Agrees (.veiled directory veil) (fun a b : Secret.Backend => b = a ∧ a.IsKnown)
      (do
        Action.log .debug .vault "Using file credential vault"
        return ofVault (.inFolder folder))
      (do
        Action.log .debug .vault "Using file credential vault"
        return ofVault (.inFolder folder)) :=
    (Action.log_veiled _ _ _).bind_eq fun _ => .pure ⟨rfl, .vault _⟩
  unfold resolve
  dsimp only
  cases usePlatform with
  | false => exact vault
  | true =>
    have there : Agrees (.veiled directory veil) Eq (Action.ask .hasKeychain)
        (Action.ask .hasKeychain) := .of_blind (.ask trivial)
    have found : Agrees (.veiled directory veil) (fun a b => b = a ∧ (a = none ∨ a = some platform))
        platform? platform? := by
      refine there.bind_eq fun isThere => .pure ⟨rfl, ?_⟩
      split
      · exact .inr rfl
      · exact .inl rfl
    refine found.bind fun a b h => ?_
    obtain ⟨rfl, rfl | rfl⟩ := h
    · exact vault
    · exact (Action.log_veiled _ _ _).bind_eq fun _ => .pure ⟨rfl, .platform⟩

namespace Keeper

structure IsResolved (folder : Path) (options : Options) (keeper : Keeper) : Prop
    extends keeper.MadeIn folder options where
  states : keeper.stores.states.store = ⟨folder.child statesName⟩
  known : keeper.secrets.IsKnown

omit [Runtime] in
theorem isOpenName : ∀ name ∈ [indexName, workersName, tokensName, markName, statesName],
    IsOpenName name := by
  unfold IsOpenName
  decide

theorem IsResolved.isOpen {folder : Path} {options : Options} {keeper : Keeper}
    (h : keeper.IsResolved folder options) : keeper.IsOpen := by
  have plain (name : String) (hn : name ∈ [indexName, workersName, tokensName, markName, statesName]) :
      (folder.child name).IsPlain := (isOpenName name hn).plain folder
  refine ⟨?_, ?_, ?_⟩
  · rw [h.index]
    exact plain _ (by simp)
  · rw [h.workers]
    exact plain _ (by simp)
  · rw [h.states]
    exact plain _ (by simp)

theorem MadeIn.files_veiled {folder : Path} {options : Options} {keeper : Keeper}
    (h : keeper.MadeIn folder options) : Files (.veiled directory veil) keeper := by
  refine .of_spans (Likeness.veiled_spans folder) (fun name hn => isOpenName name ?_) h
  exact List.mem_append_left [statesName] hn

/-- A keeper that only looks cannot tell twins apart. -/
theorem IsResolved.looks {folder : Path} {options : Options} {keeper : Keeper}
    (h : keeper.IsResolved folder options) :
    Looks (.veiled directory veil) SameEmptiness keeper keeper.secrets keeper.secrets :=
  { h.files_veiled with get? := h.known.get?_veiled }

theorem make_veiled (folder : Path) {options : Options} {secrets : Secret.Backend}
    (explicit : options.secrets = some secrets) (known : secrets.IsKnown) :
    Agrees (.veiled directory veil)
      (fun keeper other => other = keeper ∧ keeper.IsResolved folder options)
      (make folder options) (make folder options) := by
  have lasting (result : Except DurationFault Duration) :
      Agrees (.veiled directory veil) Eq (ofDuration result) (ofDuration result) := by
    cases result with
    | ok duration => exact .pure rfl
    | error fault => exact .throw _
  have holder : Agrees (.veiled directory veil) Eq (Action.ask .processId) (Action.ask .processId) :=
    .of_blind (.ask trivial)
  unfold make
  rw [explicit]
  refine (lasting _).bind_eq fun staleAfter => holder.bind_eq fun pid => ?_
  refine (lasting _).bind_eq fun lifetime => .pure ⟨rfl, ?_, rfl, known⟩
  refine ⟨rfl, rfl, rfl, rfl, rfl, rfl, ?_⟩
  rw [explicit]
  rfl

theorem ofSettings_veiled (settings : Settings) (factory : OAuth.Factory) :
    Agrees (.veiled directory veil)
      (fun keeper other => other = keeper ∧ ∃ options, keeper.IsResolved settings.folder options)
      (ofSettings settings factory none) (ofSettings settings factory none) := by
  refine (Secret.Backend.resolve_veiled _ _).bind fun secrets other h => ?_
  obtain ⟨rfl, known⟩ := h
  refine Agrees.bind_eq (.of_blind (OAuth.ClientMetadata.load_blind _)) fun metadata => ?_
  exact (make_veiled settings.folder rfl known).mono fun _ _ made => ⟨made.1, _, made.2⟩

end Keeper

namespace Command

omit [Runtime] in
/-- What is shown of a session only tells whether it has a secret. -/
theorem Account.describe_eq {s t : Session} (h : Session.Matches SameEmptiness s t) :
    describe t = describe s := by
  cases h with
  | account h =>
    cases h with
    | intro subject handle h => cases h <;> rfl
  | worker h =>
    cases h with
    | intro subject handle h =>
      cases h with
      | intro id name created h => cases h <;> rfl

/-- That a command only shows something. -/
def Account.IsLooking (command : Account) : Prop := command = .whoami ∨ command = .workers

/-- That a command line asks for no more than to be shown something. -/
def IsLookingLine (words : List Text) : Prop :=
  ∀ name found, accountProgram.read words = .ok (some (name, found)) →
    (Account.ofArguments name found).IsLooking

omit [Runtime] in
theorem isLookingLine_whoami : IsLookingLine ["whoami"] := by
  intro name found read
  have told : accountProgram.read ["whoami"] = .ok (some ("whoami", .none)) := rfl
  rw [told] at read
  obtain ⟨⟩ := read
  exact .inl rfl

theorem Account.perform_veiled {folder : Path} {options : Keeper.Options} {keeper : Keeper}
    (h : keeper.IsResolved folder options) {command : Account} (looking : command.IsLooking) :
    Agrees (.veiled directory veil) Eq (command.perform keeper).alone
      (command.perform keeper).alone := by
  have looks : Keeper.Looks (.veiled directory veil) SameEmptiness keeper keeper.secrets
      keeper.secrets := h.looks
  have shown (document : Json) : Agrees (.veiled directory veil) Eq (printDocument document)
      (printDocument document) := .of_blind (printDocument_asks (fun _ => trivial) document)
  have performs : SessionAction.Agrees (.veiled directory veil) (fun _ => True) Eq
      (command.perform keeper) (command.perform keeper) := by
    obtain rfl | rfl := looking
    · refine .bind (.lift looks.load) fun found other h => ?_
      cases h with
      | none => exact .throw _
      | @some s t h =>
        dsimp only
        rw [describe_eq h]
        exact .bind_eq (.lift (shown _)) fun _ => .pure rfl
    · refine .bind_eq (.lift looks.listWorkers) fun workers => ?_
      exact .bind_eq (.lift (shown _)) fun _ => .pure rfl
  exact performs.alone

theorem runAccount_veiled (factory : OAuth.Factory) {words : List Text}
    (looking : IsLookingLine words) :
    Agrees (.veiled directory veil) Eq (runAccount factory words) (runAccount factory words) := by
  have emits (output : Output) : Agrees (.veiled directory veil) Eq (Action.ask (.emit output))
      (Action.ask (.emit output)) := .of_blind (.ask trivial)
  unfold runAccount
  split
  · exact (emits _).bind_eq fun _ => (emits _).bind_eq fun _ => .pure rfl
  · exact (emits _).bind_eq fun _ => .pure rfl
  · rename_i name found read
    have loads := Settings.loadResolved_asks glances_blind.asides trivial Settings.environmentFile_isPlain
    refine Agrees.bind_eq (.of_blind loads) fun settings => ?_
    refine (emits _).bind_eq fun _ => .tryCatch ?_ fun failure =>
      .of_blind (Account.explain_asks (fun _ => trivial) failure)
    refine (Keeper.ofSettings_veiled settings factory).bind fun keeper other h => ?_
    obtain ⟨rfl, _, resolved⟩ := h
    exact Account.perform_veiled resolved (looking name found read)

theorem runDiagnosis_veiled (words : List Text) :
    Agrees (.veiled directory veil) Eq (runDiagnosis words) (runDiagnosis words) := by
  have emits (output : Output) : Agrees (.veiled directory veil) Eq (Action.ask (.emit output))
      (Action.ask (.emit output)) := .of_blind (.ask trivial)
  unfold runDiagnosis
  split
  · exact (emits _).bind_eq fun _ => (emits _).bind_eq fun _ => .pure rfl
  · exact (emits _).bind_eq fun _ => .pure rfl
  · have loads := Settings.load_asks glances_blind.asides trivial Settings.environmentFile_isPlain
    refine Agrees.bind_eq (.of_blind loads) fun settings => ?_
    refine (Keeper.ofSettings_veiled settings OAuth.unavailable).bind fun keeper other h => ?_
    obtain ⟨rfl, _, resolved⟩ := h
    refine Agrees.bind_eq (.of_blind (Diagnosis.examine_blind resolved.isOpen _)) fun report => ?_
    refine Agrees.bind_eq (.of_blind ?_) fun _ => .pure rfl
    exact Account.printDocument_asks (fun _ => trivial) report

end Command

end Veiled

end SessionKeeper
