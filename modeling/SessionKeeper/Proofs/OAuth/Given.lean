import SessionKeeper.OAuth.MetadataFile
import SessionKeeper.Proofs.Script.Yields
import SessionKeeper.Proofs.Text.Words

/-!
# What metadata are made from

What is given under a name is read and checked, and a name that is not mentioned keeps its
standard value. So metadata, wherever they come from, have a redirect URI that begins like a
loopback URL and a scope with `atproto` among its words, which stand a single blank apart. The
metadata of a folder are made from the octets of one file, and without that file, or with a folder
in its place, they are the standard ones.
-/
namespace SessionKeeper

namespace OAuth.ClientMetadata

/-- That metadata have passed both checks. -/
structure IsSound (metadata : ClientMetadata) : Prop where
  loopback : isLoopback metadata.redirectUri = true
  atproto : Text.ofString "atproto" ∈ metadata.scope.words
  spaced : metadata.scope = Text.join " " metadata.scope.words

theorem standard_isSound : standard.IsSound := ⟨by decide, by decide, by decide⟩

variable {given : Text → Option (Schema.Reading Text)} {check : Text → Schema.Reading Text}
  {name absent t : Text} {metadata : ClientMetadata}

theorem choose_eq_ok : choose given name absent check = .ok t ↔
    given name = none ∧ t = absent ∨ ∃ s, given name = some (.ok s) ∧ check s = .ok t := by
  rw [choose]
  rcases given name with _ | issues | s
  · simp [eq_comm]
  · simp [Schema.under_eq_ok, Except.bind]
  · simp [Schema.under_eq_ok, Except.bind]

theorem ofGiven_eq_ok : ofGiven given = .ok metadata ↔
    choose given "client_name" standard.name .ok = .ok metadata.name ∧
    choose given "client_uri" standard.uri .ok = .ok metadata.uri ∧
    choose given "redirect_uri" standard.redirectUri checkRedirectUri = .ok metadata.redirectUri ∧
    choose given "scope" standard.scope checkScope = .ok metadata.scope ∧
    choose given "handle_resolver" standard.handleResolver .ok = .ok metadata.handleResolver := by
  rw [ofGiven]
  constructor
  · intro h
    obtain ⟨⟨name, uri, redirectUri, scope, resolver⟩, read, made⟩ := exists_of_bind_ok h
    simp only [Schema.both_eq_ok] at read
    obtain rfl := Except.ok.inj made
    exact read
  · rintro ⟨hn, hu, hr, hs, hh⟩
    rw [hn, hu, hr, hs, hh]
    rfl

theorem words_of_checkScope {scope : Text} (h : checkScope t = .ok scope) :
    Text.ofString "atproto" ∈ t.words ∧ scope = Text.join " " t.words ∧ scope.words = t.words := by
  rw [checkScope] at h
  split_ifs at h with named
  · obtain rfl := Except.ok.inj h
    exact ⟨named, rfl, Text.words_join fun _ => Text.isWord_of_mem_words⟩
  · cases h

/-- What passed the check of a scope is written with single blanks, with `atproto` among its words. -/
theorem checkScope_sound {scope : Text} (h : checkScope t = .ok scope) :
    Text.ofString "atproto" ∈ scope.words ∧ scope = Text.join " " scope.words := by
  obtain ⟨named, spaced, words⟩ := words_of_checkScope h
  rw [words]
  exact ⟨named, spaced⟩

theorem checkRedirectUri_eq_ok {uri : Text} :
    checkRedirectUri t = .ok uri ↔ uri = t ∧ isLoopback t = true := by
  rw [checkRedirectUri]
  split_ifs with start
  · simp [start, eq_comm]
  · simp [start, Schema.refuse]

/-- Metadata that were given have passed both checks, also where nothing was given for them. -/
theorem isSound_of_ofGiven (h : ofGiven given = .ok metadata) : metadata.IsSound := by
  obtain ⟨-, -, redirect, scope, -⟩ := ofGiven_eq_ok.mp h
  have loopback : isLoopback metadata.redirectUri = true := by
    obtain ⟨-, same⟩ | ⟨s, -, checked⟩ := choose_eq_ok.mp redirect
    · rw [same]
      exact standard_isSound.loopback
    · obtain ⟨same, start⟩ := checkRedirectUri_eq_ok.mp checked
      rwa [same]
  obtain ⟨-, same⟩ | ⟨s, -, checked⟩ := choose_eq_ok.mp scope
  · exact ⟨loopback, same ▸ standard_isSound.atproto, same ▸ standard_isSound.spaced⟩
  · obtain ⟨atproto, spaced⟩ := checkScope_sound checked
    exact ⟨loopback, atproto, spaced⟩

variable {folder : Path} {machine : Machine} {octets : Octets}

variable [Runtime]

/-- The metadata that what is found at the path of the metadata file stands for. That nothing is
there is no fault, and neither is a folder. -/
def ofFound (path : Path) : Except FileFault (Location × Node) → Except Failure ClientMetadata
  | .ok (_, .file _ _ octets) => ofOctets path octets
  | .ok (_, .directory _) => .ok standard
  | .error .absent => .ok standard
  | .error .notDirectory => .ok standard
  | .error fault => .error (.file fault)

/-- Loading depends on what is found under the name of the file, and changes nothing. -/
theorem load_exec (folder : Path) (machine : Machine) :
    (load folder).exec machine =
      (ofFound (folder.child fileName) (machine.tree.find machine.directory (folder.child fileName)),
        machine) := by
  have probed : machine.answer (.probe (folder.child fileName)) =
    (machine.tree.kind machine.directory (folder.child fileName), machine) := rfl
  rw [load, Action.exec_ask_bind probed, Tree.kind]
  rcases found : machine.tree.find machine.directory (folder.child fileName) with
    fault | ⟨l, ⟨number, mode, octets⟩ | ⟨mode⟩⟩
  · cases fault <;> rfl
  · have stored : machine.tree.read machine.directory (folder.child fileName) = .ok octets := by
      rw [Tree.read, found]
      rfl
    have opened : machine.answer (.readFile (folder.child fileName)) = (.ok octets, machine) :=
      Prod.ext stored rfl
    refine (Action.exec_ask_bind opened).trans ?_
    rw [Action.ofFile, pure_bind, ofFound]
    cases ofOctets (folder.child fileName) octets <;> rfl
  · rfl

/-- Looking at other things before makes no difference. -/
theorem load_of_quiet {after : Machine} {outcome : Except Failure ClientMetadata}
    (quiet : machine.Quiet after) (h : ((load folder).exec machine).1 = outcome) :
    (load folder).exec after = (outcome, after) := by
  rw [load_exec] at h ⊢
  rw [quiet.tree, quiet.circumstances.directory]
  exact Prod.ext h rfl

theorem load_stored
    (stored : machine.tree.read machine.directory (folder.child fileName) = .ok octets) :
    (load folder).exec machine = (ofOctets (folder.child fileName) octets, machine) := by
  obtain ⟨⟨l, node⟩, found, content⟩ := exists_of_bind_ok stored
  rw [load_exec, found]
  cases node with
  | file number mode held =>
    obtain rfl : held = octets := Except.ok.inj content
    rfl
  | directory => cases content

end OAuth.ClientMetadata

end SessionKeeper
