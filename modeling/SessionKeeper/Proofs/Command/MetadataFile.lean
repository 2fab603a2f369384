import SessionKeeper.Command.Account
import SessionKeeper.Proofs.Keeper.Composed
import SessionKeeper.Proofs.Yaml.Tree

/-!
# What becomes of a metadata file

Any content of the metadata file gives sound metadata or is refused, and which of these happens is
told from the content alone. A file whose grammar, shape or values are wrong is reported as such,
with how to fix it. Three kinds of content are refused without being reported as the file's: octets
that are no UTF-8, documents with a scalar that spells no value of its type or with an escape for a
number that no code point has, and documents with more levels than there is room for.
-/
namespace SessionKeeper

open SessionKeeper.Action

instance decidableEqExcept {ε α : Type} [DecidableEq ε] [DecidableEq α] : DecidableEq (Except ε α)
  | .ok a, .ok b => decidable_of_iff (a = b) ⟨congrArg _, Except.ok.inj⟩
  | .error e, .error f => decidable_of_iff (e = f) ⟨congrArg _, Except.error.inj⟩
  | .ok _, .error _ => isFalse fun h => by cases h
  | .error _, .ok _ => isFalse fun h => by cases h

section

variable [Runtime]

namespace OAuth.ClientMetadata

variable {path : Path} {octets : Octets} {outcome : Except Failure ClientMetadata}
  {entries : Assoc Text Yaml.Value} {metadata : ClientMetadata}

/-- That a part of the metadata is what the entries of a file say about it, or the value for their
silence. -/
inductive Says (entries : Assoc Text Yaml.Value) (name absent : Text)
    (check : Text → Schema.Reading Text) : Text → Prop where
  | nothing (silent : entries.value? name = none) : Says entries name absent check absent
  | something {value : Yaml.Value} {s t : Text} (told : entries.value? name = some value)
      (read : textOf value = .ok s) (passed : check s = .ok t) : Says entries name absent check t

omit [Runtime] in
theorem says_iff {name absent t : Text} {check : Text → Schema.Reading Text} :
    Says entries name absent check t ↔
      choose (fun name => (entries.value? name).map textOf) name absent check = .ok t := by
  rw [choose_eq_ok]
  constructor
  · rintro (silent | ⟨told, read, passed⟩)
    · exact .inl ⟨by rw [silent, Option.map_none], rfl⟩
    · exact .inr ⟨_, by rw [told, Option.map_some, read], passed⟩
  · rintro (⟨silent, rfl⟩ | ⟨s, told, passed⟩)
    · exact .nothing (Option.map_eq_none_iff.mp silent)
    · obtain ⟨value, found, read⟩ := Option.map_eq_some_iff.mp told
      exact .something found read passed

/-- That each part of the metadata is what the entries of a file say about it, and the standard
value where they say nothing. -/
structure IsSaid (entries : Assoc Text Yaml.Value) (metadata : ClientMetadata) : Prop where
  name : Says entries "client_name" standard.name .ok metadata.name
  uri : Says entries "client_uri" standard.uri .ok metadata.uri
  redirectUri : Says entries "redirect_uri" standard.redirectUri checkRedirectUri
    metadata.redirectUri
  scope : Says entries "scope" standard.scope checkScope metadata.scope
  handleResolver : Says entries "handle_resolver" standard.handleResolver .ok
    metadata.handleResolver

omit [Runtime] in
theorem isSaid_iff : IsSaid entries metadata ↔
    ofGiven (fun name => (entries.value? name).map textOf) = .ok metadata := by
  rw [ofGiven_eq_ok, ← says_iff, ← says_iff, ← says_iff, ← says_iff, ← says_iff]
  exact ⟨fun ⟨name, uri, redirect, scope, resolver⟩ => ⟨name, uri, redirect, scope, resolver⟩,
    fun ⟨name, uri, redirect, scope, resolver⟩ => ⟨name, uri, redirect, scope, resolver⟩⟩

/-- That octets hold a text in UTF-8, with any line ends. -/
def Holds (octets : Octets) (text : List Char) : Prop :=
  ∃ cs, Utf8.decode octets = .ok cs ∧ unifyNewlines cs = text

/-- How the octets of a metadata file end, one way for each outcome. -/
inductive Ends (path : Path) (octets : Octets) : Except Failure ClientMetadata → Prop where
  | undecodable {flaw : Utf8.Flaw} (flawed : Utf8.decode octets = .error flaw) :
      Ends path octets (.error (.undecodable flaw))
  | misspelled {text : List Char} {fault : Yaml.ValueFault} (decoded : Holds octets text)
      (refused : Yaml.Document.ofText? text = .error (.value fault))
      (misspells : Yaml.Misspells text fault) : Ends path octets (.error (.yaml fault))
  | tooDeep {text : List Char} (decoded : Holds octets text)
      (refused : Yaml.Document.ofText? text = .error .tooDeep) (deep : Yaml.IsDeep text) :
      Ends path octets (.error (.beyond (.levels .node)))
  | ungrammatical {text : List Char} (decoded : Holds octets text)
      (refused : Yaml.Document.ofText? text = .error .grammar) :
      Ends path octets (.error (.metadata path .grammar))
  | notAMapping {text : List Char} (decoded : Holds octets text)
      (spelled : Yaml.Document.ofText? text = .ok .other) :
      Ends path octets (.error (.metadata path .notAMapping))
  | unsound {text : List Char} {entries : Assoc Text Yaml.Value} {issues : List Schema.Issue}
      (decoded : Holds octets text) (spelled : Yaml.Document.ofText? text = .ok (.mapping entries))
      (refused : ofGiven (fun name => (entries.value? name).map textOf) = .error issues) :
      Ends path octets (.error (.metadata path (.issues issues)))
  | empty {text : List Char} (decoded : Holds octets text)
      (spelled : Yaml.Document.ofText? text = .ok .empty) : Ends path octets (.ok standard)
  | said {text : List Char} {entries : Assoc Text Yaml.Value} {metadata : ClientMetadata}
      (decoded : Holds octets text) (spelled : Yaml.Document.ofText? text = .ok (.mapping entries))
      (said : IsSaid entries metadata) : Ends path octets (.ok metadata)

theorem ends_ofOctets (path : Path) (octets : Octets) : Ends path octets (ofOctets path octets) := by
  rw [ofOctets]
  rcases decoded : Utf8.decode octets with flaw | cs
  · exact .undecodable decoded
  have holds : Holds octets (unifyNewlines cs) := ⟨cs, decoded, rfl⟩
  dsimp only
  rcases spelled : Yaml.Document.ofText? (unifyNewlines cs) with fault | document
  · rcases Yaml.Document.ofText?_error spelled with rfl | ⟨value, rfl, misspells⟩ | ⟨rfl, deep⟩
    · exact .ungrammatical holds spelled
    · exact .misspelled holds spelled misspells
    · exact .tooDeep holds spelled deep
  cases document with
  | empty => exact .empty holds spelled
  | other => exact .notAMapping holds spelled
  | mapping entries =>
    dsimp only [ofDocument]
    rcases made : ofGiven fun name => (entries.value? name).map textOf with issues | metadata
    · exact .unsound holds spelled made
    · exact .said holds spelled (isSaid_iff.mpr made)

theorem ofOctets_of_holds {text : List Char} {document : Yaml.Document} (decoded : Holds octets text)
    (spelled : Yaml.Document.ofText? text = .ok document) :
    ofOctets path octets = (ofDocument document).mapError (.metadata path) := by
  obtain ⟨cs, decoded, rfl⟩ := decoded
  simp only [ofOctets, decoded, spelled]

theorem ofOctets_of_refused {text : List Char} {fault : Yaml.Fault} (decoded : Holds octets text)
    (refused : Yaml.Document.ofText? text = .error fault) : ofOctets path octets =
      match fault with
      | .grammar => .error (.metadata path .grammar)
      | .value fault => .error (.yaml fault)
      | .tooDeep => .error (.beyond (.levels .node)) := by
  obtain ⟨cs, decoded, rfl⟩ := decoded
  simp only [ofOctets, decoded, refused]
  cases fault <;> rfl

theorem Ends.eq (h : Ends path octets outcome) : ofOctets path octets = outcome := by
  cases h with
  | undecodable flawed => rw [ofOctets, flawed]
  | misspelled decoded refused => exact ofOctets_of_refused decoded refused
  | tooDeep decoded refused => exact ofOctets_of_refused decoded refused
  | ungrammatical decoded refused => exact ofOctets_of_refused decoded refused
  | notAMapping decoded spelled => exact ofOctets_of_holds decoded spelled
  | unsound decoded spelled refused =>
    rw [ofOctets_of_holds decoded spelled, ofDocument, refused]
    rfl
  | empty decoded spelled => exact ofOctets_of_holds decoded spelled
  | said decoded spelled said =>
    rw [ofOctets_of_holds decoded spelled, ofDocument, isSaid_iff.mp said]
    rfl

theorem Ends.isSound (h : Ends path octets (.ok metadata)) : metadata.IsSound := by
  cases h with
  | empty => exact standard_isSound
  | said _ _ said => exact isSound_of_ofGiven (isSaid_iff.mp said)

theorem ends_nil (path : Path) : Ends path [] (.ok standard) := by
  have decoded : Utf8.decode [] = .ok [] := by decide +kernel
  exact .empty ⟨[], decoded, rfl⟩ rfl

/-- That no file stands at a path, and that this is no fault. -/
inductive Lacks : Except FileFault Kind → Prop where
  | absent : Lacks (.error .absent)
  | outside : Lacks (.error .notDirectory)
  | folder : Lacks (.ok .directory)

variable {folder : Path} {machine : Machine}

theorem load_of_lacks
    (lacks : Lacks (machine.tree.kind machine.directory (folder.child fileName))) :
    (load folder).exec machine = (.ok standard, machine) := by
  rw [Tree.kind] at lacks
  rw [load_exec]
  generalize machine.tree.find machine.directory (folder.child fileName) = found at lacks ⊢
  rcases found with fault | ⟨l, ⟨number, mode, octets⟩ | ⟨mode⟩⟩
  · cases fault <;> first | rfl | cases lacks
  · cases lacks
  · rfl

/-- Whatever stands under the name of the file, metadata that are loaded are sound. -/
theorem isSound_of_load (h : ((load folder).exec machine).1 = .ok metadata) : metadata.IsSound := by
  rw [load_exec] at h
  generalize machine.tree.find machine.directory (folder.child fileName) = found at h
  rcases found with fault | ⟨l, ⟨number, mode, octets⟩ | ⟨mode⟩⟩
  · cases fault
    case absent | notDirectory =>
      obtain rfl := Except.ok.inj h
      exact standard_isSound
    all_goals cases h
  · have ends : Ends (folder.child fileName) octets (.ok metadata) := h ▸ ends_ofOctets _ octets
    exact ends.isSound
  · obtain rfl := Except.ok.inj h
    exact standard_isSound

end OAuth.ClientMetadata

namespace Command

open OAuth (ClientMetadata)
open OAuth.ClientMetadata (Ends Lacks fileName)

variable {factory : OAuth.Factory} {machine : Machine}

/-- A command for a folder whose metadata cannot be loaded explains why, and does nothing else. -/
theorem performWith_of_refused (settings : Settings) (command : Account) {failure : Failure}
    (refused : ((ClientMetadata.load settings.folder).exec machine).1 = .error failure) :
    ∃ between, machine.Quiet between ∧
      (Account.performWith factory settings command).exec machine =
        (Account.explain failure).exec between := by
  obtain ⟨secrets, between, resolved, quiet⟩ :=
    Secret.Backend.resolve_exec settings.folder none settings.usePlatformKeychain machine
  have fails := ClientMetadata.load_of_quiet quiet refused
  have stops : (Keeper.ofSettings settings factory none >>= fun keeper =>
      (command.perform keeper).alone).exec machine = (.error failure, between) := by
    refine exec_bind_error ?_
    rw [Keeper.ofSettings, exec_bind_ok resolved, exec_bind_error fails]
  refine ⟨between, quiet, ?_⟩
  refine (exec_tryCatch _ _ machine).trans ?_
  rw [stops]

/-- The machine after a complaint about the metadata file and the way to fix it. -/
def complained (path : Path) (fault : MetadataFault) (machine : Machine) : Machine :=
  (machine.tell (.printError (Text.ofString "ERROR: " ++ Account.complaint (.metadata path fault) ++
    "\n"))).tell (.printError (Text.ofString "FIX: " ++
      "Fix or remove oauth-client.yaml in the config directory" ++ "\n"))

omit [Runtime] in
theorem explain_metadata (path : Path) (fault : MetadataFault) (machine : Machine) :
    (Account.explain (.metadata path fault)).exec machine =
      (.ok 1, complained path fault machine) := rfl

end Command

end

namespace Command

open scoped SessionKeeper.Runtime
open OAuth (ClientMetadata)
open OAuth.ClientMetadata (Ends fileName)

/-- A machine with a metadata file in the folder for sessions. -/
def describing (octets : Octets) : Machine :=
  Ground.withFile .bare ["home"] fileName 0o644 octets

theorem read_describing (octets : Octets) : (describing octets).tree.read
    (describing octets).directory (Path.child ⟨"/", ["home"]⟩ fileName) = .ok octets := rfl

def atHome : Settings where
  folder := ⟨"/", ["home"]⟩
  stateLifetime := .ofInt 3600
  lockStaleAfter := .ofInt 45
  keyserverUrl := Settings.standardUrl
  keyserverProxy := Settings.standardProxy
  keyserverTimeout := Settings.standardTimeout
  secretService := Settings.standardService
  usePlatformKeychain := false
  logLevel := .warning

end Command

end SessionKeeper
