import SessionKeeper.Proofs.Command.Looking

/-!
# Secrets are not seen

A run makes a keeper for a folder and then asks it for one thing after the other, with commands that
look at the folder in between. Two runs that differ only in the secrets that are given to them, as
long as these look the same, end alike in every step, show the same, and have the same in all
files but the vault's at every point. Only four requests can tell such runs apart: to read the
vault's file, to move it, to ask the keychain for a secret, and to ask the keyserver for a
passphrase. What they answer is followed to the places where it is used; all else is blind. What is
shown of a log record is its level, its origin and its message, without any further fields.
-/
namespace SessionKeeper

open Secret (SameEmptiness)
open SessionKeeper.Action (Agrees)

/-- That two machines have shown the same and have the same everywhere but in hidden files. -/
structure Machine.SameOutside (hidden : Location → Prop) (m n : Machine) : Prop where
  transcript : n.transcript = m.transcript
  nodes : ∀ l, ¬ hidden l → n.tree.node? l = m.tree.node? l

section

variable [Runtime]

theorem Machine.Twin.sameOutside {hidden : Location → Prop} {m n : Machine}
    (h : Machine.Twin hidden m n) : m.SameOutside hidden n := by
  refine ⟨h.transcript_eq, fun l outside => ?_⟩
  have node := h.trees.nodes l
  generalize m.tree.node? l = a at node ⊢
  generalize n.tree.node? l = b at node ⊢
  cases node with
  | none => rfl
  | some node =>
    cases node with
    | same => rfl
    | hidden here => exact absurd here outside

/-- The veil that a chosen backend takes. With a keychain nothing is hidden. -/
def Secret.Choice.veil (directory : Location) (folder : Path) : Secret.Choice → Veil
  | .vault => .ofVault directory folder
  | .keychain _ => .bare

/-- That an OAuth client cannot tell twins apart. -/
structure OAuth.Client.IsBlind (directory : Location) (veil : Veil) (client : OAuth.Client) :
    Prop where
  authorize : ∀ handle, Agrees (.veiled directory veil) Eq (client.authorize handle)
    (client.authorize handle)
  restore : ∀ subject, Agrees (.veiled directory veil) Eq (client.restore subject)
    (client.restore subject)
  revoke : ∀ subject, Agrees (.veiled directory veil) Eq (client.revoke subject)
    (client.revoke subject)

/-- That stores are those of a folder. -/
structure OAuth.Stores.AreIn (folder : Path) (stores : OAuth.Stores) : Prop where
  sessions : stores.sessions = ⟨folder.child Keeper.tokensName⟩
  states : stores.states.store = ⟨folder.child Keeper.statesName⟩
  lock : stores.lock.folder = folder

/-- That making a client for the stores of a folder does not tell twins apart, nor does the client
that is made. -/
def OAuth.Factory.IsBlind (directory : Location) (folder : Path) (veil : Veil)
    (factory : OAuth.Factory) : Prop :=
  ∀ stores : OAuth.Stores, stores.AreIn folder → Agrees (.veiled directory veil)
    (fun client other => client = other ∧ client.IsBlind directory veil) (factory stores)
    (factory stores)

namespace Secret.Choice

variable {directory : Location} {folder : Path}

theorem isKnown (choice : Choice) (folder : Path) : (choice.backend folder).IsKnown := by
  cases choice with
  | vault => exact .vault _
  | keychain strict => exact .platform

theorem put_veiled (choice : Choice) (service account : Text) {s t : Text} (h : SameEmptiness s t) :
    Agrees (.veiled directory (choice.veil directory folder)) Eq
      ((choice.backend folder).put service account s)
      ((choice.backend folder).put service account t) := by
  cases choice with
  | vault => exact Vault.put_veiled service account h
  | keychain strict => exact Backend.platform_put_veiled service account h

theorem remove_veiled (choice : Choice) (service account : Text) :
    Agrees (.veiled directory (choice.veil directory folder)) Eq
      ((choice.backend folder).remove service account)
      ((choice.backend folder).remove service account) := by
  cases choice with
  | vault => exact Vault.remove_veiled service account
  | keychain strict => exact Backend.platform_remove_veiled service account

end Secret.Choice

/-- Something to be done in a run: a keeper is asked for something, or a command line is run. -/
inductive Errand where
  | call (call : Keeper.Call)
  | account (words : List Text)
  | diagnosis (words : List Text)

/-- What comes of it: a reply, or an exit code. -/
inductive Answer where
  | reply (reply : Keeper.Reply)
  | code (code : Nat)

/-- That two errands are the same but for secrets, which look the same. A command line asks for
no more than to be shown something. -/
inductive Errand.Matches : Errand → Errand → Prop where
  | call {one other : Keeper.Call} (h : Keeper.Call.Matches SameEmptiness one other) :
    Matches (.call one) (.call other)
  | account (words : List Text) (looking : Command.IsLookingLine words) :
    Matches (.account words) (.account words)
  | diagnosis (words : List Text) : Matches (.diagnosis words) (.diagnosis words)

/-- That two answers are the same but for secrets, which look the same. -/
inductive Answer.Matches : Answer → Answer → Prop where
  | reply {one other : Keeper.Reply} (h : Keeper.Reply.Matches SameEmptiness one other) :
    Matches (.reply one) (.reply other)
  | code (code : Nat) : Matches (.code code) (.code code)

namespace Keeper

def runErrand (keeper : Keeper) : Errand → SessionAction Answer
  | .call call => do return .reply (← keeper.respond call)
  | .account words => do return .code (← Command.runAccount keeper.factory words)
  | .diagnosis words => do return .code (← Command.runDiagnosis words)

/-- How a run went: what came of making the keeper and of every errand, the machines that were passed
through one request at a time, and the last one. -/
structure Course where
  outcome : Except Failure (List (Except Failure Answer))
  passed : List Machine
  last : Machine

def course (folder : Path) (options : Options) (errands : List (Move Errand)) (origin : Machine) :
    Course :=
  let (made, start) := (make folder options).exec origin
  let entrance := (make folder options).run.trail origin
  match made with
  | .error failure => ⟨.error failure, entrance, start⟩
  | .ok keeper =>
    let (outcomes, scene) := Move.play keeper.runErrand errands ⟨none, start⟩
    ⟨.ok outcomes, entrance ++ Move.passed keeper.runErrand errands ⟨none, start⟩, scene.machine⟩

variable {directory : Location} {folder : Path} {options : Options} {keeper : Keeper}

/-- A keeper with the chosen backend cannot tell twins apart. -/
theorem joint_of_blind (choice : Secret.Choice)
    (own : keeper.IsResolved folder (options.withSecrets (choice.backend folder)))
    (blind : options.factory.IsBlind directory folder (choice.veil directory folder)) :
    Joint (.veiled directory (choice.veil directory folder)) SameEmptiness (fun _ => True)
      (·.IsBlind directory (choice.veil directory folder)) keeper (choice.backend folder)
      (choice.backend folder) := by
  have files : Files (.veiled directory (choice.veil directory folder)) keeper :=
    own.files_veiled
  have factory : keeper.factory = options.factory := own.factory
  exact { files with
    get? := (choice.isKnown folder).get?_veiled
    empty := id
    put := fun _ _ h => choice.put_veiled _ _ h
    forget := choice.remove_veiled
    fetch := fun token =>
      Keyserver.Client.fetchPassphrase_agrees files.log Keyserver.post_veiled _ token
    makes := factory ▸ blind keeper.stores ⟨own.tokens, own.states, own.lock⟩
    authorize := fun h handle => (h.authorize handle).mono fun _ _ same => ⟨same, trivial⟩
    restore := fun h => h.restore
    revoke := fun h => h.revoke }

theorem runErrand_veiled (choice : Secret.Choice)
    (own : keeper.IsResolved folder (options.withSecrets (choice.backend folder)))
    (blind : options.factory.IsBlind directory folder (choice.veil directory folder))
    {one other : Errand} (h : one.Matches other) :
    SessionAction.Agrees (.veiled directory (choice.veil directory folder))
      (·.IsBlind directory (choice.veil directory folder)) Answer.Matches (keeper.runErrand one)
      (keeper.runErrand other) := by
  cases h with
  | @call one other h =>
    have responds := (joint_of_blind choice own blind).respond h (by cases one <;> trivial)
    have secrets : keeper.secrets = choice.backend folder := own.secrets
    have same : keeper.withSecrets (choice.backend folder) = keeper := by rw [withSecrets, ← secrets]
    rw [same] at responds
    exact responds.bind fun _ _ h => .pure (.reply h)
  | account words looking =>
    exact .bind_eq (.lift (Command.runAccount_veiled _ looking)) fun _ => .pure (.code _)
  | diagnosis words =>
    exact .bind_eq (.lift (Command.runDiagnosis_veiled words)) fun _ => .pure (.code _)

/-- How two runs compare: in what came of them, in all that they passed through, and in the end. -/
structure Course.SameFor (veil : Veil) (one other : Course) : Prop where
  outcome : SameOutcome (List.Forall₂ (SameOutcome Answer.Matches)) one.outcome other.outcome
  passed : List.Forall₂ (Machine.SameOutside veil.along) one.passed other.passed
  last : one.last.SameOutside veil.hidden other.last

/-- Time passes for both. -/
theorem veiled_waits {veil : Veil} (m n : Machine) (now : Moment)
    (h : m.Veiled directory veil.hidden n) :
    Machine.Veiled directory veil.hidden { m with now } { n with now } ∧
      List.Forall₂ (Machine.Twin veil.along) [{ m with now }] [{ n with now }] := by
  have later : Machine.Twin veil.hidden { m with now } { n with now } := by
    cases h.twins with
    | intro numbered trees keychains keyservers => exact .intro numbered trees keychains keyservers
  exact ⟨⟨h.directory, later⟩, .cons (later.mono veil.wider) .nil⟩

theorem course_veiled (choice : Secret.Choice)
    (blind : options.factory.IsBlind directory folder (choice.veil directory folder))
    {errands errands' : List (Move Errand)}
    (same : List.Forall₂ (Move.Matches Errand.Matches) errands errands') {origin origin' : Machine}
    (alike : origin.Veiled directory (choice.veil directory folder).hidden origin') :
    (course folder (options.withSecrets (choice.backend folder)) errands origin).SameFor
      (choice.veil directory folder)
      (course folder (options.withSecrets (choice.backend folder)) errands' origin') := by
  have makes : Agrees (.veiled directory (choice.veil directory folder))
      (fun keeper other => other = keeper ∧
        keeper.IsResolved folder (options.withSecrets (choice.backend folder)))
      (make folder (options.withSecrets (choice.backend folder)))
      (make folder (options.withSecrets (choice.backend folder))) :=
    make_veiled folder rfl (choice.isKnown folder)
  obtain ⟨made, entrance⟩ := makes origin origin' alike
  have entrance := entrance.imp fun _ _ h => Machine.Twin.sameOutside h
  unfold course Action.exec
  generalize (make folder (options.withSecrets (choice.backend folder))).run.run origin = left
    at made ⊢
  generalize (make folder (options.withSecrets (choice.backend folder))).run.run origin' = right
    at made ⊢
  obtain ⟨made, start⟩ := left
  obtain ⟨made', start'⟩ := right
  cases made with
  | error failure alike => exact ⟨.error failure, entrance, alike.twins.sameOutside⟩
  | @ok keeper other _ _ h =>
    obtain ⟨⟨rfl, own⟩, alike⟩ := h
    have clients : SameClient (·.IsBlind directory (choice.veil directory folder))
        (Scene.mk none start).client (Scene.mk none start').client := ⟨rfl, by rintro _ ⟨⟩⟩
    obtain ⟨outcomes, last, passed⟩ := Move.agrees (fun _ _ h => runErrand_veiled choice own blind h)
      veiled_waits same clients alike
    exact ⟨.ok outcomes, List.rel_append entrance (passed.imp fun _ _ h => h.sameOutside),
      last.twins.sameOutside⟩

/-- Secrets are not seen. Two runs of the same errands from the same machine, that differ only in
the secrets that workers are registered with and sessions saved with, and in the passphrases that
the keyserver gives, where each secret looks like its counterpart, end alike in all errands. At
every point they have shown the same and have the same files, apart from the vault's file and, while
it is replaced, the temporary file with its new content; between errands apart from the vault's
file. With a keychain all files are the same. A beginning of a run is a run, so what holds of
the last machine holds after every errand. -/
theorem secrets_are_not_seen {origin : Machine} (numbered : origin.tree.Numbered)
    {keyserver : Nat → Keyserver.Request → Keyserver.Outcome}
    (answers : ∀ count request, Keyserver.Outcome.Matches SameEmptiness
      (origin.keyserver count request) (keyserver count request))
    (choice : Secret.Choice) (blind : options.factory.IsBlind origin.directory folder
      (choice.veil origin.directory folder))
    {errands errands' : List (Move Errand)}
    (same : List.Forall₂ (Move.Matches Errand.Matches) errands errands') :
    (course folder (options.withSecrets (choice.backend folder)) errands origin).SameFor
      (choice.veil origin.directory folder)
      (course folder (options.withSecrets (choice.backend folder)) errands'
        { origin with keyserver }) := by
  have twins : Machine.Twin (choice.veil origin.directory folder).hidden origin
      { origin with keyserver } :=
    .intro numbered (.refl _) (.refl SameEmptiness.refl _) answers
  have alike : origin.Veiled origin.directory (choice.veil origin.directory folder).hidden
      { origin with keyserver } := ⟨rfl, twins⟩
  exact course_veiled choice blind same alike

/-- The client that knows one account keeps its tokens in a file that is not hidden. -/
theorem accountFactory_isBlind (account : Text) (veil : Veil) :
    (accountFactory account).IsBlind directory folder veil := by
  intro stores own
  have tokens : IsOpenName tokensName := isOpenName _ (by simp)
  have spans : (Likeness.veiled directory veil).Spans folder IsOpenName
      fun j k m n => k = j ∧ m.Veiled directory veil.hidden n := Likeness.veiled_spans folder
  refine .pure ⟨rfl, fun handle => ?_, fun subject => .throw _, fun subject => ?_⟩
  · rw [own.sessions]
    exact (spans.put tokens _ _).bind_eq fun _ => .pure rfl
  · rw [own.sessions]
    exact spans.remove tokens subject

end Keeper

end

namespace Keeper

open scoped SessionKeeper.Runtime

/-- An account logs in and a worker takes its place, with a look at what there is after each. -/
def visits (secret : Text) : List (Move Errand) :=
  [.act (.call (.login "a" false)), .act (.account ["whoami"]),
    .act (.call (.registerWorker "w" "W" secret)), .act (.account ["whoami"]),
    .act (.diagnosis ["sessions"])]

/-- A machine on which commands look at the folder, with a keyserver that gives one passphrase. -/
def visited (passphrase : String) : Machine := { Machine.bare with
  environment := [("ROOMY_CLI_DIR", "/home")]
  keyserver := fun _ _ => .ok ⟨200, Utf8.encodeChars passphrase.toList, none⟩ }

/-- How that goes with the vault. -/
def visit (secret : Text) (passphrase : String) : Course :=
  course ⟨"/", ["home"]⟩ (singleAccount.withSecrets (Secret.Choice.vault.backend ⟨"/", ["home"]⟩))
    (visits secret) (visited passphrase)

/-- Two visits with other secrets show the same, and leave the same but for the vault's file, which
they do leave different. -/
theorem visits_show_no_secret :
    (visit "s" "p").SameFor (Secret.Choice.vault.veil [] ⟨"/", ["home"]⟩) (visit "t" "q") ∧
      (visit "s" "p").last.tree.node? ["home", Secret.Vault.fileName] ≠
        (visit "t" "q").last.tree.node? ["home", Secret.Vault.fileName] := by
  have answers (count : Nat) (request : Keyserver.Request) : Keyserver.Outcome.Matches SameEmptiness
      ((visited "p").keyserver count request) ((visited "q").keyserver count request) := by
    refine .reply rfl fun _ => ?_
    have ends {reply : Keyserver.Reply} {passphrase : Text}
        (told : (Keyserver.Client.passphrase? reply).toOption = some (some passphrase)) :
        Keyserver.Client.passphrase? reply = .ok (some passphrase) := by
      cases found : Keyserver.Client.passphrase? reply <;> rw [found] at told
      · cases told
      · rw [Option.some.inj told]
    have told : Keyserver.Client.passphrase? ⟨200, Utf8.encodeChars "p".toList, none⟩ =
        .ok (some "p") := ends (by decide +kernel)
    have told' : Keyserver.Client.passphrase? ⟨200, Utf8.encodeChars "q".toList, none⟩ =
        .ok (some "q") := ends (by decide +kernel)
    rw [told, told']
    exact .told (.some rfl)
  have plain (call : Call) (worker : ∀ id name secret, call ≠ .registerWorker id name secret)
      (save : ∀ session, call ≠ .save session) :
      Move.Matches Errand.Matches (.act (.call call)) (.act (.call call)) :=
    .act (.call (.other call worker save))
  have looked : Move.Matches Errand.Matches (.act (.account ["whoami"])) (.act (.account ["whoami"])) :=
    .act (.account _ Command.isLookingLine_whoami)
  have same : List.Forall₂ (Move.Matches Errand.Matches) (visits "s") (visits "t") :=
    .cons (plain _ (by simp) (by simp)) (.cons looked (.cons (.act (.call (.registerWorker _ _ rfl)))
      (.cons looked (.cons (.act (.diagnosis _)) .nil))))
  have numbered : (visited "p").tree.Numbered := Machine.ground_bare.numbered
  have blind : singleAccount.factory.IsBlind (visited "p").directory ⟨"/", ["home"]⟩
      (Secret.Choice.vault.veil (visited "p").directory ⟨"/", ["home"]⟩) :=
    accountFactory_isBlind _ _
  refine ⟨secrets_are_not_seen numbered answers .vault blind same, ?_⟩
  decide +kernel

end Keeper

end SessionKeeper
