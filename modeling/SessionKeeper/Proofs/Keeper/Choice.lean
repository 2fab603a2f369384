import SessionKeeper.Proofs.Keeper.Agreement
import SessionKeeper.Proofs.Keeper.Credentials
import SessionKeeper.Proofs.Record.Alike

/-!
# The choice of a backend

Secrets can go to the vault, to a keychain that passes over the deletion of what it does not have,
or to one that complains of it. Whichever it is, a keeper replies the same to everything that is
asked of it, and all files but the vault's get the same content: between operations the ledgers
that the backends keep are the same. This takes secrets and names of accounts that are joined, since
a pair of surrogates comes back from the vault's file as one character and from a keychain as it
was.
-/
namespace SessionKeeper

section

variable [Runtime]

namespace Secret

/-- Where secrets can go. A strict keychain complains when it is to delete what it does not have. -/
inductive Choice where
  | vault
  | keychain (strict : Bool)
deriving DecidableEq

namespace Choice

/-- The backend that is chosen, for a folder. -/
def backend (folder : Path) : Choice → Backend
  | .vault => .ofVault (.inFolder folder)
  | .keychain _ => .platform

def machine (machine : Machine) : Choice → Machine
  | .vault => machine
  | .keychain strict => { machine with offer := .store strict }

/-- What it takes that the chosen backend has the secrets of a ledger. -/
def Holds (place : Location) : Choice → Machine → Ledger → Prop
  | .vault => Vault.HoldsLedger place
  | .keychain _ => Backend.HoldsLedger

theorem keeps (choice : Choice) (folder : Path) (place : Location) :
    (choice.backend folder).Keeps folder place (choice.Holds place) := by
  cases choice with
  | vault => exact Vault.keeps folder place
  | keychain strict => exact Backend.platform_keeps folder place

theorem offline (choice : Choice) (folder : Path) (service account secret : Text) :
    ((choice.backend folder).get? service account).IsOffline ∧
      ((choice.backend folder).put service account secret).IsOffline ∧
      ((choice.backend folder).remove service account).IsOffline := by
  have read (store : Record.Store) : store.entries.IsOffline := store.entries_offline
  cases choice with
  | vault =>
    refine ⟨(read _).bind fun _ => .pure _, (read _).bind fun _ => Record.Store.replace_offline _ _,
      (read _).bind fun entries => ?_⟩
    split
    · exact .pure _
    · split
      · exact Record.Store.replace_offline _ _
      · exact .pure _
  | keychain strict =>
    refine ⟨.ask fun _ => rfl, .ask fun _ => rfl, .bind (.ask fun _ => rfl) fun there => ?_⟩
    split
    · exact Record.log_offline _ _ _
    · exact .pure _

end Choice

def SameJoined (s t : Text) : Prop := s = t ∧ s.IsJoined

def Ledger.IsJoined (ledger : Ledger) : Prop :=
  ∀ service account secret, ledger service account = some secret → secret.IsJoined

omit [Runtime] in
theorem Ledger.IsJoined.put {ledger : Ledger} (h : ledger.IsJoined) (service account : Text)
    {secret : Text} (joined : secret.IsJoined) : (ledger.put service account secret).IsJoined := by
  intro s a found
  simp only [Ledger.put]
  split
  · rintro ⟨⟩
    exact joined
  · exact h s a found

omit [Runtime] in
theorem Ledger.IsJoined.remove {ledger : Ledger} (h : ledger.IsJoined) (service account : Text) :
    (ledger.remove service account).IsJoined := by
  intro s a found
  simp only [Ledger.remove]
  split
  · rintro ⟨⟩
  · exact h s a found

end Secret

def Keyserver.GivesJoined (keyserver : Nat → Request → Outcome) : Prop :=
  ∀ count request reply passphrase, keyserver count request = .ok reply →
    Client.passphrase? reply = .ok (some passphrase) → passphrase.IsJoined

namespace Secret

/-- That two chosen backends have the secrets of one ledger, and the vault's file can be written. -/
structure Shared (place : Location) (c d : Choice) (m n : Machine) : Prop where
  left : Record.Writable m place Vault.fileName
  right : Record.Writable n place Vault.fileName
  ledger : ∃ ledger, c.Holds place m ledger ∧ d.Holds place n ledger ∧ ledger.IsJoined
  keyserver : Keyserver.GivesJoined m.keyserver

/-- The likeness of machines whose chosen backends have the same secrets. -/
abbrev sharing (folder : Path) (place : Location) (c d : Choice) : Likeness :=
  .beside folder place Vault.fileName (Shared place c d)

variable {folder : Path} {place : Location} {c d : Choice} {m n m' n' : Machine}

theorem shared_veiled : IsVeiledFact place Vault.fileName (Shared place c d) := by
  intro m n m' n' h left right
  have writable {before after : Machine} (w : Record.Writable before place Vault.fileName)
      (passed : before.Passed place Vault.fileName after) :
      Record.Writable after place Vault.fileName := by
    refine ⟨?_, fun mode => ?_⟩
    · rw [passed.temporary_under]
      exact w.free
    · rw [passed.hidden_under]
      exact w.plain mode
  obtain ⟨ledger, hm, hn, joined⟩ := h.ledger
  refine ⟨writable h.left left, writable h.right right, ⟨ledger, ?_, ?_, joined⟩, ?_⟩
  · exact (c.keeps default place).same hm left.hidden_under left.keychain
  · exact (d.keeps default place).same hn right.hidden_under right.keychain
  · rw [left.fixed.keyserver]
    exact h.keyserver

/-- Both machines were only looked at. -/
theorem Shared.quiet (h : m.Beside folder place Vault.fileName (Shared place c d) n)
    (left : m.Quiet m') (right : n.Quiet n') (progress : n'.progress = m'.progress) :
    m'.Beside folder place Vault.fileName (Shared place c d) n' := by
  have passed {before after : Machine} (quiet : before.Quiet after) :
      before.Passed place Vault.fileName after :=
    ⟨.of_tree quiet.tree, quiet.keychain, quiet.circumstances, fun numbered => quiet.tree ▸ numbered⟩
  refine h.after shared_veiled (passed left) (passed right)
    (h.alike.after left.circumstances right.circumstances progress fun l hl => ?_)
  rw [left.tree, right.tree]
  exact h.alike.nodes l hl

/-- Both backends have changed in the same way. -/
theorem Shared.stirred (h : m.Beside folder place Vault.fileName (Shared place c d) n)
    (left : Stirred place m m') (right : Stirred place n n') (fixed : m.SameCircumstances m')
    (fixed' : n.SameCircumstances n') (numbered : m'.tree.Numbered) (numbered' : n'.tree.Numbered)
    (progress : n'.progress = m'.progress)
    (ledger : ∃ ledger, c.Holds place m' ledger ∧ d.Holds place n' ledger ∧ ledger.IsJoined) :
    m'.Beside folder place Vault.fileName (Shared place c d) n' where
  left := h.left.kept left.only fixed numbered
  right := h.right.kept right.only fixed' numbered'
  alike := h.alike.after fixed fixed' progress fun l hl => by
    have elsewhere (name : String) (own : name = Vault.fileName) : l ≠ place ++ [name] := own ▸ hl
    rw [left.only.elsewhere l elsewhere, right.only.elsewhere l elsewhere]
    exact h.alike.nodes l hl
  extra := ⟨left.writable, right.writable, ledger, by rw [fixed.keyserver]; exact h.extra.keyserver⟩

theorem get?_agrees (service account : Text) :
    ((c.backend folder).get? service account).Agrees (sharing folder place c d)
      (Option.Rel SameJoined) ((d.backend folder).get? service account) := by
  refine .of_exec fun m n h => ?_
  obtain ⟨ledger, hm, hn, joined⟩ := h.extra.ledger
  obtain ⟨m', left, quiet⟩ := (c.keeps folder place).get? h.left hm service account
  obtain ⟨n', right, quiet'⟩ := (d.keeps folder place).get? h.right hn service account
  have progress := (c.offline folder service account []).1 m
  have progress' := (d.offline folder service account []).1 n
  rw [left] at progress
  rw [right] at progress'
  rw [left, right]
  refine ⟨.ok ?_, Shared.quiet h quiet quiet' ?_⟩
  · cases found : ledger service account with
    | none => exact .none
    | some secret => exact .some ⟨rfl, joined _ _ _ found⟩
  · exact progress'.trans (h.alike.progress.trans progress.symm)

theorem put_agrees {service account s t : Text} (services : service.IsJoined)
    (accounts : account.IsJoined) (same : SameJoined s t) :
    ((c.backend folder).put service account s).Agrees (sharing folder place c d) Eq
      ((d.backend folder).put service account t) := by
  obtain ⟨rfl, joined⟩ := same
  refine .of_exec fun m n h => ?_
  obtain ⟨ledger, hm, hn, all⟩ := h.extra.ledger
  obtain ⟨stored, m', left, stirred, there, told⟩ := (c.keeps folder place).put h.left h.extra.left
    hm ⟨services, accounts⟩ s
  obtain ⟨stored', n', right, stirred', there', told'⟩ := (d.keeps folder place).put h.right
    h.extra.right hn ⟨services, accounts⟩ s
  obtain rfl := told joined
  obtain rfl := told' joined
  have progress := (c.offline folder service account stored').2.1 m
  have progress' := (d.offline folder service account stored').2.1 n
  rw [left] at progress
  rw [right] at progress'
  rw [left, right]
  exact ⟨.ok rfl, Shared.stirred h stirred stirred' (.of_exec_eq left) (.of_exec_eq right)
    (h.left.numbered.of_exec_eq left) (h.right.numbered.of_exec_eq right)
    (progress'.trans (h.alike.progress.trans progress.symm))
    ⟨_, there, there', all.put service account joined⟩⟩

theorem remove_agrees (service account : Text) :
    ((c.backend folder).remove service account).Agrees (sharing folder place c d) Eq
      ((d.backend folder).remove service account) := by
  refine .of_exec fun m n h => ?_
  obtain ⟨ledger, hm, hn, all⟩ := h.extra.ledger
  obtain ⟨m', left, stirred, there⟩ := (c.keeps folder place).remove h.left h.extra.left hm
    service account
  obtain ⟨n', right, stirred', there'⟩ := (d.keeps folder place).remove h.right h.extra.right hn
    service account
  have progress := (c.offline folder service account []).2.2 m
  have progress' := (d.offline folder service account []).2.2 n
  rw [left] at progress
  rw [right] at progress'
  rw [left, right]
  exact ⟨.ok rfl, Shared.stirred h stirred stirred' (.of_exec_eq left) (.of_exec_eq right)
    (h.left.numbered.of_exec_eq left) (h.right.numbered.of_exec_eq right)
    (progress'.trans (h.alike.progress.trans progress.symm))
    ⟨_, there, there', all.remove service account⟩⟩

/-- The same request is answered the same, with a passphrase that is joined. -/
theorem post_agrees (request : Keyserver.Request) :
    (Action.ask (.post request)).Agrees (sharing folder place c d)
      (Keyserver.Outcome.Matches SameJoined) (Action.ask (.post request)) := by
  refine .of_exec fun m n h => ?_
  have requests : n.requests = m.requests := congrArg Prod.fst h.alike.progress
  have input : n.input = m.input := congrArg Prod.snd h.alike.progress
  have passed (machine : Machine) :
      machine.Passed place Vault.fileName (machine.answer (.post request)).2 :=
    ⟨.of_tree rfl, rfl, machine.answer_fixed _, id⟩
  have progress : (n.answer (.post request)).2.progress = (m.answer (.post request)).2.progress :=
    Prod.ext (congrArg (· + 1) requests) input
  refine ⟨.ok ?_, h.after shared_veiled (passed m) (passed n)
    (h.alike.after (passed m).fixed (passed n).fixed progress h.alike.nodes)⟩
  show Keyserver.Outcome.Matches SameJoined (m.keyserver m.requests request)
    (n.keyserver n.requests request)
  rw [h.alike.keyserver, requests]
  cases answered : m.keyserver m.requests request with
  | error name => exact .fault name
  | ok reply =>
    refine .reply rfl fun _ => ?_
    cases found : Keyserver.Client.passphrase? reply with
    | error failure => exact .failure failure
    | ok passphrase =>
      cases passphrase with
      | none => exact .told .none
      | some passphrase =>
        exact .told (.some ⟨rfl, h.extra.keyserver _ _ _ _ answered found⟩)

end Secret

/-- That an operation leaves the secrets alone and does not see them: it runs the same on machines
that are alike but for the vault's file. -/
structure Action.IsUnaware {α : Type} (folder : Path) (place : Location) (action : Action α) :
    Prop where
  confined : action.Confined folder place (¬ IsVeiled Secret.Vault.fileName ·)
  keychain : ∀ machine, Ground machine folder place →
    (action.exec machine).2.keychain = machine.keychain
  same : ∀ m n, Ground m folder place → Ground n folder place →
    m.AlikeBut place Secret.Vault.fileName n → (action.exec m).1 = (action.exec n).1 ∧
      (action.exec m).2.AlikeBut place Secret.Vault.fileName (action.exec n).2

/-- That an OAuth client does not see the secrets, and authorizes joined subjects. -/
structure OAuth.Client.IsUnaware (folder : Path) (place : Location) (client : OAuth.Client) :
    Prop where
  authorize : ∀ handle, (client.authorize handle).IsUnaware folder place
  restore : ∀ subject, (client.restore subject).IsUnaware folder place
  revoke : ∀ subject, (client.revoke subject).IsUnaware folder place
  joined : ∀ handle machine authorization after, Ground machine folder place →
    (client.authorize handle).exec machine = (.ok authorization, after) →
      authorization.subject.IsJoined

/-- That making a client does not see the secrets either, and makes such a client. -/
structure OAuth.Factory.IsUnaware (factory : OAuth.Factory) (stores : OAuth.Stores) (folder : Path)
    (place : Location) : Prop where
  makes : (factory stores).IsUnaware folder place
  made : ∀ machine client after, Ground machine folder place →
    (factory stores).exec machine = (.ok client, after) → client.IsUnaware folder place

section Unaware

variable {α : Type} {folder : Path} {place : Location}

theorem Action.IsUnaware.agrees {action : Action α} (h : action.IsUnaware folder place)
    {T : α → Prop} (told : ∀ machine a after, Ground machine folder place →
      action.exec machine = (.ok a, after) → T a) (c d : Secret.Choice) :
    action.Agrees (Secret.sharing folder place c d) (fun a b => a = b ∧ T a) action := by
  have passed (machine : Machine) (g : Ground machine folder place) :
      machine.Passed place Secret.Vault.fileName (action.exec machine).2 :=
    .of_exec g h.confined (h.keychain machine g)
  refine Likeness.agrees_beside Secret.shared_veiled passed passed fun m n left right alike => ?_
  obtain ⟨outcome, after⟩ := h.same m n left right alike
  refine ⟨?_, after⟩
  rw [← outcome]
  cases ended : (action.exec m).1 with
  | ok a => exact .ok ⟨rfl, told m a _ left (Prod.ext ended rfl)⟩
  | error failure => exact .error failure

theorem Action.IsUnaware.agrees_eq {action : Action α} (h : action.IsUnaware folder place)
    (c d : Secret.Choice) : action.Agrees (Secret.sharing folder place c d) Eq action :=
  (h.agrees (T := fun _ => True) (fun _ _ _ _ _ => trivial) c d).mono fun _ _ same => same.1

end Unaware

section SameSecrets

omit [Runtime] in
/-- Relating no more than equals is inherited by what may be absent. -/
theorem eq_of_rel {α : Type} {R : α → α → Prop} (one : ∀ a b, R a b → a = b) {a b : Option α}
    (h : Option.Rel R a b) : a = b := by
  cases h with
  | none => rfl
  | some h => rw [one _ _ h]

variable {same : Text → Text → Prop} (one : ∀ s t, same s t → s = t)
include one

omit [Runtime] in
theorem Worker.Matches.eq (v w : Worker) (h : Worker.Matches same v w) : v = w := by
  cases h with
  | intro id name created h => rw [eq_of_rel one h]

omit [Runtime] in
theorem AccountSession.Matches.eq (s t : AccountSession) (h : AccountSession.Matches same s t) :
    s = t := by
  cases h with
  | intro subject handle h => rw [eq_of_rel one h]

omit [Runtime] in
theorem WorkerSession.Matches.eq (s t : WorkerSession) (h : WorkerSession.Matches same s t) :
    s = t := by
  cases h with
  | intro subject handle h => rw [Worker.Matches.eq one _ _ h]

omit [Runtime] in
theorem Session.Matches.eq (s t : Session) (h : Session.Matches same s t) : s = t := by
  cases h with
  | account h => rw [AccountSession.Matches.eq one _ _ h]
  | worker h => rw [WorkerSession.Matches.eq one _ _ h]

end SameSecrets

omit [Runtime] in
theorem Record.temporaryName_ne_vault (name : String) (k : Nat) :
    Machine.temporaryName name k ≠ Secret.Vault.fileName := by
  intro h
  have last := congrArg (fun s => s.toList.getLast?) h
  have temporary : ".tmp".toList.getLast? = some 'p' := rfl
  have vault : Secret.Vault.fileName.toList.getLast? = some 's' := rfl
  simp only [Machine.temporaryName, String.toList_append, List.getLast?_append, temporary, vault,
    Option.some_or] at last
  exact absurd last (by decide)

namespace Keeper

variable {keeper : Keeper} {folder : Path} {place : Location} {options : Options}

omit [Runtime] in
theorem isPlainName : ∀ name ∈ [indexName, workersName, tokensName, markName],
    IsPlainName Secret.Vault.fileName name := by
  have plain : ∀ name ∈ [indexName, workersName, tokensName, markName], name ≠ ".." ∧
      Tree.isTooLong name = false ∧ name ≠ Secret.Vault.fileName ∧
        name ≠ Machine.temporaryName Secret.Vault.fileName 0 := by decide
  intro name hn
  obtain ⟨down, short, own, temporary⟩ := plain name hn
  refine ⟨⟨down, short⟩, ?_, Record.temporaryName_ne_vault name⟩
  rintro (same | same)
  · exact own same
  · exact temporary same

/-- A keeper cannot tell the backends that can be chosen apart. -/
theorem joint_of_choice (own : keeper.MadeIn folder options)
    (service : keeper.secretService.IsJoined)
    (unaware : keeper.factory.IsUnaware keeper.stores folder place) (c d : Secret.Choice) :
    Joint (Secret.sharing folder place c d) Secret.SameJoined Text.IsJoined
      (·.IsUnaware folder place) keeper (c.backend folder) (d.backend folder) := by
  have files : Files (Secret.sharing folder place c d) keeper :=
    .of_spans (Likeness.spans_beside Secret.shared_veiled) isPlainName own
  refine { files with
    get? := Secret.get?_agrees
    empty := fun h => by rw [h.1]
    put := fun hs ha h => Secret.put_agrees ?_ ha h
    forget := Secret.remove_agrees
    fetch := fun token => Keyserver.Client.fetchPassphrase_agrees files.log Secret.post_agrees _ token
    makes := unaware.makes.agrees unaware.made c d
    authorize := fun h handle => (h.authorize handle).agrees (h.joined handle) c d
    restore := fun h subject => (h.restore subject).agrees_eq c d
    revoke := fun h subject => (h.revoke subject).agrees_eq c d }
  simp only [List.mem_cons, List.not_mem_nil, or_false] at hs
  rcases hs with rfl | rfl
  · exact Text.isJoined_append_ofChars service "-worker".toList
  · exact Text.isJoined_append_ofChars service "-passphrase".toList

/-- The session of a call has a joined secret, if any, and is kept under a joined account. -/
def Call.IsJoined : Call → Prop
  | .registerWorker id _ secret => id.trim.IsJoined ∧ secret.IsJoined
  | .save session => (secretAccount session).IsJoined ∧
      ∀ secret, session.secret? = some secret → secret.IsJoined
  | _ => True

omit [Runtime] in
theorem Call.IsJoined.isKnown {call : Call} (h : call.IsJoined) : call.IsKnown Text.IsJoined := by
  cases call with
  | registerWorker id name secret => exact h.1
  | save session => exact h.1
  | _ => trivial

omit [Runtime] in
theorem sameJoined_self {secret : Option Text} (h : ∀ s, secret = some s → s.IsJoined) :
    Option.Rel Secret.SameJoined secret secret := by
  cases secret with
  | none => exact .none
  | some s => exact .some ⟨rfl, h s rfl⟩

omit [Runtime] in
theorem Call.IsJoined.matches_self {call : Call} (h : call.IsJoined) :
    Call.Matches Secret.SameJoined call call := by
  cases call with
  | registerWorker id name secret => exact .registerWorker id name ⟨rfl, h.2⟩
  | save session =>
    cases session with
    | account session => exact .save (.account (.intro _ _ (sameJoined_self h.2)))
    | worker session => exact .save (.worker (.intro _ _ (.intro _ _ _ (sameJoined_self h.2))))
  | _ => exact .other _ (by simp) (by simp)

section Same

variable {same : Text → Text → Prop} (one : ∀ s t, same s t → s = t)
include one

omit [Runtime] in
theorem CurrentSession.Matches.eq (s t : CurrentSession) (h : CurrentSession.Matches same s t) :
    s = t := by
  cases h with
  | intro tokens h => rw [Session.Matches.eq one _ _ h]

omit [Runtime] in
/-- Replies are the same when nothing but one secret goes with another. -/
theorem Reply.Matches.eq (r s : Reply) (h : Reply.Matches same r s) : r = s := by
  cases h with
  | account h => rw [AccountSession.Matches.eq one _ _ h]
  | worker h => rw [WorkerSession.Matches.eq one _ _ h]
  | session h => rw [eq_of_rel (Session.Matches.eq one) h]
  | current h => rw [eq_of_rel (CurrentSession.Matches.eq one) h]
  | credentials h =>
    cases h with
    | intro account h => rw [one _ _ h]
  | registered h => rw [eq_of_rel (Worker.Matches.eq one) h]
  | _ => rfl

end Same

/-- What a keeper ends with that is made in a folder and then asked for one thing after the other:
how making it failed, or how every call ended. -/
def serve (folder : Path) (options : Options) (moves : List (Move Call)) (origin : Machine) :
    Except Failure (List (Except Failure Reply)) × Machine :=
  let (made, start) := (make folder options).exec origin
  match made with
  | .ok keeper =>
    let (outcomes, scene) := Move.play keeper.respond moves ⟨none, start⟩
    (.ok outcomes, scene.machine)
  | .error failure => (.error failure, start)

/-- Whether keepers are made and asked alike is a matter of every call alone. -/
theorem serve_agrees {L : Likeness} {same : Text → Text → Prop} {known : Text → Prop}
    {fits : OAuth.Client → Prop} {options : Options} {a b : Secret.Backend}
    (holder : (Action.ask .processId).Agrees L Eq (Action.ask .processId))
    (joint : ∀ keeper : Keeper, keeper.MadeIn folder (options.withSecrets a) →
      Joint L same known fits keeper a b)
    (waits : ∀ m n now, L.holds m n → L.holds { m with now } { n with now } ∧
      L.along [{ m with now }] [{ n with now }])
    {moves moves' : List (Move Call)}
    (called : List.Forall₂ (Move.Matches fun call other => Call.Matches same call other ∧
      call.IsKnown known) moves moves') {m n : Machine} (alike : L.holds m n) :
    SameOutcome (List.Forall₂ (SameOutcome (Reply.Matches same)))
        (serve folder (options.withSecrets a) moves m).1
        (serve folder (options.withSecrets b) moves' n).1 ∧
      L.holds (serve folder (options.withSecrets a) moves m).2
        (serve folder (options.withSecrets b) moves' n).2 := by
  have made := (make_agrees holder folder options a b).exec alike
  unfold serve
  generalize (make folder (options.withSecrets a)).exec m = left at made ⊢
  generalize (make folder (options.withSecrets b)).exec n = right at made ⊢
  obtain ⟨made, start⟩ := left
  obtain ⟨made', start'⟩ := right
  obtain ⟨outcome, alike'⟩ := made
  cases outcome with
  | error failure => exact ⟨.error failure, alike'⟩
  | @ok keeper other h =>
    obtain ⟨own, rfl⟩ := h
    have first : keeper.withSecrets a = keeper := by
      have secrets : keeper.secrets = a := own.secrets
      rw [withSecrets, ← secrets]
    have responds (call call' : Call) (h : Call.Matches same call call' ∧ call.IsKnown known) :
        SessionAction.Agrees L fits (Reply.Matches same) (keeper.respond call)
          ((keeper.withSecrets b).respond call') := by
      have responds := (joint keeper own).respond h.1 h.2
      rwa [first] at responds
    have clients : SameClient fits (Scene.mk none start).client (Scene.mk none start').client :=
      ⟨rfl, by rintro _ ⟨⟩⟩
    have replies := Move.agrees responds waits called clients alike'
    exact ⟨.ok replies.1, replies.2.1⟩

section Start

variable {machine : Machine} {c d : Secret.Choice}

/-- Time passes for both. -/
theorem sharing_waits (m n : Machine) (now : Moment)
    (h : (Secret.sharing folder place c d).holds m n) :
    (Secret.sharing folder place c d).holds { m with now } { n with now } := by
  obtain ⟨ledger, hm, hn, joined⟩ := h.extra.ledger
  exact
    { left := ⟨h.left.leads, h.left.stands, h.left.numbered⟩
      right := ⟨h.right.leads, h.right.stands, h.right.numbered⟩
      alike := ⟨h.alike.directory, rfl, h.alike.processId, h.alike.environment, h.alike.homes,
        h.alike.keyserver, h.alike.progress, h.alike.nodes⟩
      extra := ⟨⟨h.extra.left.free, h.extra.left.plain⟩, ⟨h.extra.right.free, h.extra.right.plain⟩,
        ⟨ledger, (c.keeps folder place).same hm rfl rfl, (d.keeps folder place).same hn rfl rfl,
          joined⟩, h.extra.keyserver⟩ }

theorem sharing_of_empty (ground : Ground machine folder place)
    (empty : ∀ name, machine.under place name = none) (blank : machine.keychain = [])
    (keyserver : Keyserver.GivesJoined machine.keyserver) :
    (Secret.sharing folder place c d).holds (c.machine machine) (d.machine machine) := by
  have stands (choice : Secret.Choice) : Ground (choice.machine machine) folder place := by
    cases choice with
    | vault => exact ground
    | keychain strict => exact ⟨ground.leads, ground.stands, ground.numbered⟩
  have writable (choice : Secret.Choice) :
      Record.Writable (choice.machine machine) place Secret.Vault.fileName := by
    have free (name : String) : (choice.machine machine).under place name = none := by
      cases choice <;> exact empty name
    refine ⟨free _, fun mode => ?_⟩
    rw [free]
    simp
  have holds (choice : Secret.Choice) : choice.Holds place (choice.machine machine) .empty := by
    cases choice with
    | vault => exact ⟨[], .inl ⟨rfl, empty _⟩, rfl⟩
    | keychain strict =>
      intro service account
      show machine.keychain.value? _ = none
      rw [blank]
      rfl
  have alike : (c.machine machine).AlikeBut place Secret.Vault.fileName (d.machine machine) := by
    cases c <;> cases d <;> exact ⟨rfl, rfl, rfl, rfl, rfl, rfl, rfl, fun _ _ => rfl⟩
  have joined : Keyserver.GivesJoined (c.machine machine).keyserver := by
    cases c <;> exact keyserver
  exact ⟨stands c, stands d, alike, writable c, writable d,
    ⟨.empty, holds c, holds d, by rintro _ _ _ ⟨⟩⟩, joined⟩

end Start

/-- What comes of all that with the chosen backend. -/
def serveBy (folder : Path) (options : Options) (moves : List (Move Call)) (origin : Machine)
    (choice : Secret.Choice) : Except Failure (List (Except Failure Reply)) × Machine :=
  serve folder (options.withSecrets (choice.backend folder)) moves (choice.machine origin)

/-- The choice of a backend cannot be observed: from an empty folder on a keeper replies the same
to all that is asked of it, whichever backend it was made with, and leaves the same at every place
but the vault's, as long as the secrets and the accounts that they are kept under are joined. -/
theorem choice_is_unobservable {origin : Machine} (ground : Ground origin folder place)
    (empty : ∀ name, origin.under place name = none) (blank : origin.keychain = [])
    (keyserver : Keyserver.GivesJoined origin.keyserver)
    (service : options.secretService.IsJoined)
    (unaware : ∀ stores : OAuth.Stores, stores.sessions = ⟨folder.child tokensName⟩ →
      options.factory.IsUnaware stores folder place)
    (moves : List (Move Call)) (joined : ∀ call, .act call ∈ moves → call.IsJoined)
    (c d : Secret.Choice) :
    (serveBy folder options moves origin c).1 = (serveBy folder options moves origin d).1 ∧
      ∀ l, l ≠ place ++ [Secret.Vault.fileName] →
        ((serveBy folder options moves origin d).2.tree.node? l).map Node.bare =
          ((serveBy folder options moves origin c).2.tree.node? l).map Node.bare := by
  have joint (keeper : Keeper)
      (own : keeper.MadeIn folder (options.withSecrets (c.backend folder))) :
      Joint (Secret.sharing folder place c d) Secret.SameJoined Text.IsJoined
        (·.IsUnaware folder place) keeper (c.backend folder) (d.backend folder) :=
    joint_of_choice own (own.service ▸ service) (own.factory ▸ unaware _ own.tokens) c d
  have called : List.Forall₂ (Move.Matches fun call other =>
      Call.Matches Secret.SameJoined call other ∧ call.IsKnown Text.IsJoined) moves moves := by
    refine List.forall₂_same.mpr fun move hm => ?_
    cases move with
    | act call => exact .act ⟨(joined call hm).matches_self, (joined call hm).isKnown⟩
    | wait now => exact .wait now
  have holder : (Action.ask .processId).Agrees (Secret.sharing folder place c d) Eq
      (Action.ask .processId) :=
    .of_exec fun m n h => ⟨.ok h.alike.processId.symm, h⟩
  obtain ⟨outcome, alike⟩ := serve_agrees holder joint
    (fun m n now h => ⟨sharing_waits m n now h, trivial⟩) called
    (sharing_of_empty ground empty blank keyserver)
  refine ⟨(outcome.mono fun replies replies' h => ?_).eq, alike.alike.nodes⟩
  have same (r s : Except Failure Reply) (h : SameOutcome (Reply.Matches Secret.SameJoined) r s) :
      r = s := (h.mono (Reply.Matches.eq fun _ _ h => h.1)).eq
  rw [← List.forall₂_eq_eq_eq]
  exact h.imp same

omit [Runtime] in
theorem not_isVeiled {name : String} (h : ¬ IsGuarded name) :
    ¬ IsVeiled Secret.Vault.fileName name :=
  fun veiled => h (.inl ⟨Secret.Vault.fileName, by decide, veiled⟩)

omit [Runtime] in
/-- What touches nothing of the keeper's and runs the same beside any vault is unaware of it. -/
theorem isUnaware_of_respects {α : Type} {action : Action α}
    (respects : action.Respects folder place)
    (same : action.Agrees (.beside folder place Secret.Vault.fileName fun _ _ => True) Eq action) :
    action.IsUnaware folder place := by
  refine ⟨respects.confined.mono fun _ => not_isVeiled, respects.keychain, fun m n left right h => ?_⟩
  obtain ⟨outcome, beside⟩ := same.exec (m := m) (n := n) ⟨left, right, h, trivial⟩
  exact ⟨outcome.eq, beside.alike⟩

/-- The client that knows one account keeps its tokens where the secrets are not seen. -/
theorem accountFactory_isUnaware {account : Text} (sound : IsAccount account)
    {stores : OAuth.Stores} (tokens : stores.sessions = ⟨folder.child tokensName⟩) :
    (accountFactory account).IsUnaware stores folder place := by
  have spans : (Likeness.beside folder place Secret.Vault.fileName fun _ _ => True).Spans folder
      (IsPlainName Secret.Vault.fileName)
      (Machine.Opened folder place Secret.Vault.fileName fun _ _ => True) :=
    Likeness.spans_beside fun _ _ _ _ _ _ _ => trivial
  have plain : IsPlainName Secret.Vault.fileName tokensName := isPlainName _ (by simp)
  refine ⟨isUnaware_of_respects (.pure _) (.pure rfl), fun machine client after _ h => ?_⟩
  obtain ⟨⟩ := h
  refine ⟨fun handle => ?_, fun subject => ?_, fun subject => ?_, fun handle machine authorization
    after _ he => ?_⟩
  · rw [tokens]
    exact isUnaware_of_respects ((tokens_put_respects _ _).bind fun _ => .pure _)
      ((spans.put plain _ _).bind_eq fun _ => .pure rfl)
  · exact isUnaware_of_respects ⟨.of_passive (.throw _), fun _ _ => rfl⟩ (.throw _)
  · rw [tokens]
    exact isUnaware_of_respects (tokens_remove_respects subject) (spans.remove plain subject)
  · have told : Action.Yields (do
        stores.sessions.put account (.obj [("access_token", .str "t")])
        return (⟨account, [("access_token", .str "t")]⟩ : OAuth.Authorization)) machine
        fun authorization _ => authorization.subject.IsJoined :=
      .bind (P := fun _ _ => True) (fun _ _ _ => trivial) fun _ _ _ => .pure sound.1
    exact told authorization after he

end Keeper

end

namespace Keeper

open scoped SessionKeeper.Runtime

/-- One logs in, asks for the session, has it cleared twice and then asks again. -/
def errands : List (Move Call) :=
  [.act (.login "a" false), .act .load, .act .clear, .act .clear, .act .load]

/-- The only account is the one that logs in. -/
def singleAccount : Options := { factory := accountFactory "did:plc:a" }

/-- What comes of that in an empty folder with the chosen backend. -/
def errandsServed : Machine → Secret.Choice → Except Failure (List (Except Failure Reply)) × Machine :=
  serveBy ⟨"/", ["home"]⟩ singleAccount errands

/-- A session that is cleared twice does not show whether the keychain is strict or a vault. -/
theorem errands_are_unobservable :
    (errandsServed Machine.bare .vault).1 = (errandsServed Machine.bare (.keychain true)).1 ∧
      ∀ l, l ≠ ["home"] ++ [Secret.Vault.fileName] →
        ((errandsServed Machine.bare (.keychain true)).2.tree.node? l).map Node.bare =
          ((errandsServed Machine.bare .vault).2.tree.node? l).map Node.bare := by
  have keyserver : Keyserver.GivesJoined Machine.bare.keyserver := by
    rintro count request reply passphrase ⟨⟩ told
    have single : (Keyserver.Client.passphrase? ⟨200, Utf8.encodeChars "p".toList, none⟩).toOption =
        some (some (Text.ofString "p")) := by decide +kernel
    rw [told] at single
    obtain ⟨⟩ := single
    decide
  have unaware (stores : OAuth.Stores) (tokens : stores.sessions = ⟨.child ⟨"/", ["home"]⟩ tokensName⟩) :
      singleAccount.factory.IsUnaware stores ⟨"/", ["home"]⟩ ["home"] :=
    accountFactory_isUnaware ⟨by decide, by decide⟩ tokens
  have joined (call : Call) (hm : .act call ∈ errands) : call.IsJoined := by
    simp only [errands, List.mem_cons, List.not_mem_nil, or_false, Move.act.injEq] at hm
    rcases hm with rfl | rfl | rfl | rfl | rfl <;> trivial
  have service : singleAccount.secretService.IsJoined := by decide
  unfold errandsServed
  exact choice_is_unobservable Machine.ground_bare Machine.under_bare rfl keyserver service unaware
    errands joined .vault (.keychain true)

def passphraseLoaded : Except Failure (List (Except Failure Reply)) → Option Text
  | .ok (_ :: .ok (.session (some (.account session))) :: _) => session.passphrase
  | _ => none

/-- A keyserver that gives two surrogates next to each other, each written in octets of its own. -/
def pairedMachine : Machine := { Machine.bare with
  keyserver := fun _ _ => .ok ⟨200, [0x22, 0xED, 0xA0, 0xBD, 0xED, 0xB8, 0x80, 0x22], none⟩ }

/-- A pair of surrogates shows which backend there is. -/
theorem pair_is_observable :
    (errandsServed pairedMachine .vault).1 ≠ (errandsServed pairedMachine (.keychain false)).1 := by
  intro same
  have told : passphraseLoaded (errandsServed pairedMachine .vault).1 ≠
      passphraseLoaded (errandsServed pairedMachine (.keychain false)).1 := by decide +kernel
  exact told (congrArg passphraseLoaded same)

end Keeper

end SessionKeeper
