import SessionKeeper.Proofs.Keeper.Parts
import SessionKeeper.Proofs.Record.Aimed

/-!
# Logins that fail on the way in

Before a login takes the session lock it is checked, the subject is authorized and a passphrase
is fetched. A login that gets no further has left the index, the workers and the secrets as they
were, in whatever state it found them. The token sets are the client's, who has stored one as
soon as the subject was authorized: nobody takes it out again when the keyserver has no
passphrase or the lock is held.
-/
namespace SessionKeeper

namespace Keeper

/-- That the index, the workers and the secrets are what they were. -/
structure SameHoldings (place : Location) (before after : Machine) : Prop where
  octets : ∀ name ∈ ownNames, after.octetsUnder place name = before.octetsUnder place name
  keychain : after.keychain = before.keychain

/-- That the file of the token sets is what it was. -/
def SameTokens (place : Location) (before after : Machine) : Prop :=
  after.octetsUnder place tokensName = before.octetsUnder place tokensName

end Keeper

open Keeper (SameHoldings SameTokens ownNames tokensName)

section

variable [Runtime]

/-- That a client, when it authorizes a subject, stores a token set for it in a store, and that
this is all it does to the files and secrets of a folder. -/
def OAuth.Client.Lodges (folder : Path) (place : Location) (client : OAuth.Client) : Prop :=
  ∀ handle machine, Aimed folder place machine →
    (client.authorize handle).Ends machine fun outcome after =>
      SameHoldings place machine after ∧ match outcome with
        | .ok authorization => ∃ tokens, Record.Store.entriesOn ⟨folder.child tokensName⟩ after =
            (Record.Store.entriesOn ⟨folder.child tokensName⟩ machine).put authorization.subject tokens
        | .error _ => SameTokens place machine after

/-- That making a client changes none of these files and secrets, and makes one of this kind. -/
structure OAuth.Factory.Lodges (factory : OAuth.Factory) (stores : OAuth.Stores) (folder : Path)
    (place : Location) : Prop where
  makes : ∀ machine, Aimed folder place machine → (factory stores).Ends machine fun _ after =>
    SameHoldings place machine after ∧ SameTokens place machine after ∧
      Record.Store.entriesOn ⟨folder.child tokensName⟩ after =
        Record.Store.entriesOn ⟨folder.child tokensName⟩ machine
  made : ∀ machine client after, (factory stores).exec machine = (.ok client, after) →
    client.Lodges folder place

namespace Keeper

variable {keeper : Keeper} {folder : Path} {place : Location} {machine between after : Machine}
  {scene : Scene}

namespace SameHoldings

omit [Runtime] in
theorem trans (h : SameHoldings place machine between) (k : SameHoldings place between after) :
    SameHoldings place machine after where
  octets name hn := (k.octets name hn).trans (h.octets name hn)
  keychain := k.keychain.trans h.keychain

omit [Runtime] in
theorem of_quiet (quiet : machine.Quiet after) : SameHoldings place machine after where
  octets _ _ := Machine.octetsUnder_of_under (quiet.under _ _)
  keychain := quiet.keychain

omit [Runtime] in
/-- What leaves a key of its own aside and the keychain alone keeps what is held. -/
theorem of_leaves {α : Type} {action : Action α} {names : String → Prop}
    (aimed : Aimed folder place machine) (leaves : action.LeavesOctets folder place names)
    (own : ∀ name ∈ ownNames, names name)
    (keychain : (action.exec machine).2.keychain = machine.keychain) :
    SameHoldings place machine (action.exec machine).2 where
  octets name hn := leaves machine aimed name (own name hn)
  keychain := keychain

end SameHoldings

/-- What a login does until the subject is authorized. -/
def letIn (keeper : Keeper) (handle : Text) (replace : Bool) : SessionAction OAuth.Authorization := do
  keeper.screen handle.trim replace
  Action.log .info .session "Starting OAuth login"
  let client ← keeper.client
  client.authorize handle.trim

/-- What a login does until it has the session lock. -/
def approach (keeper : Keeper) (handle : Text) (replace : Bool) :
    SessionAction (AccountSession × Lock.Marker) := do
  let authorization ← keeper.letIn handle replace
  let passphrase ← keeper.keyserver.fetchPassphrase authorization.accessToken?
  let marker ← keeper.lock.acquire lockKey
  return (⟨authorization.subject, handle.trim, some passphrase⟩, marker)

/-- A login that does not get as far as its section ends as it did on the way. -/
theorem login_of_approach {handle : Text} {replace : Bool} {client later : Option OAuth.Client}
    {failure : Failure}
    (refused : (keeper.approach handle replace).exec client machine = (.error failure, later, after)) :
    (keeper.login handle replace).exec client machine = (.error failure, later, after) := by
  have whole : (keeper.login handle replace).exec client machine = (do
      let authorization ← keeper.letIn handle replace
      let passphrase ← keeper.keyserver.fetchPassphrase authorization.accessToken?
      let session : AccountSession := ⟨authorization.subject, handle.trim, some passphrase⟩
      keeper.replaceBy (.account session)
      Action.log .info .session "Login complete"
      return session : SessionAction AccountSession).exec client machine := by
    simp only [login_eq, proceed, letIn, authorize, bind_assoc, pure_bind]
  rw [whole]
  unfold approach at refused
  rcases ha : (keeper.letIn handle replace).exec client machine with
    ⟨fault | authorization, client', admitted⟩
  · rw [SessionAction.exec_bind_error ha] at refused ⊢
    cases refused
    rfl
  · rw [SessionAction.exec_bind_ok ha] at refused ⊢
    rw [SessionAction.exec_bind, SessionAction.exec_lift] at refused ⊢
    rcases hf : (keeper.keyserver.fetchPassphrase authorization.accessToken?).exec admitted with
      ⟨fault | passphrase, fetched⟩ <;> rw [hf] at refused
    · cases refused
      rfl
    · dsimp only at refused ⊢
      rw [SessionAction.exec_bind, SessionAction.exec_lift] at refused
      rw [SessionAction.exec_bind, replaceBy, SessionAction.exec_holding]
      rcases hl : (keeper.lock.acquire lockKey).exec fetched with ⟨fault | marker, locked⟩ <;>
        rw [hl] at refused
      · cases refused
        rfl
      · cases (Prod.mk.inj refused).1

/-- A machine on the way in: what is held is what it was, and so are the token sets. -/
structure Entering (folder : Path) (place : Location) (before after : Machine) : Prop where
  aimed : Aimed folder place after
  holdings : SameHoldings place before after
  tokens : SameTokens place before after
  entries : Record.Store.entriesOn ⟨folder.child tokensName⟩ after =
    Record.Store.entriesOn ⟨folder.child tokensName⟩ before

namespace Entering

theorem refl (aimed : Aimed folder place machine) : Entering folder place machine machine :=
  ⟨aimed, .of_quiet (.refl machine), rfl, rfl⟩

theorem quiet (h : Entering folder place machine between) (quiet : between.Quiet after) :
    Entering folder place machine after where
  aimed := h.aimed.of_quiet quiet
  holdings := h.holdings.trans (.of_quiet quiet)
  tokens := (Machine.octetsUnder_of_under (quiet.under _ _)).trans h.tokens
  entries := (Record.Store.entriesOn_of_quiet _ quiet).trans h.entries

end Entering

/-- What there is of a login when the subject was authorized, or when it was not. -/
def Admitted (folder : Path) (place : Location) (before : Machine)
    (outcome : Except Failure OAuth.Authorization) (after : Machine) : Prop :=
  Aimed folder place after ∧ SameHoldings place before after ∧ match outcome with
    | .ok authorization => ∃ tokens, Record.Store.entriesOn ⟨folder.child tokensName⟩ after =
        (Record.Store.entriesOn ⟨folder.child tokensName⟩ before).put authorization.subject tokens
    | .error _ => SameTokens place before after

theorem letIn_ends (lodges : keeper.factory.Lodges keeper.stores folder place)
    (fits : ∀ client, scene.client = some client → client.Lodges folder place)
    (aimed : Aimed folder place scene.machine) (handle : Text) (replace : Bool) :
    (keeper.letIn handle replace).Ends scene fun outcome after =>
      Admitted folder place scene.machine outcome after.machine := by
  have refused {m : Machine} (h : Entering folder place scene.machine m) (failure : Failure) :
      Admitted folder place scene.machine (.error failure) m := ⟨h.aimed, h.holdings, h.tokens⟩
  have quiet (m later : Machine) (h : Entering folder place scene.machine m)
      (quiet : m.Quiet later) : Entering folder place scene.machine later := h.quiet quiet
  have start : Attended (Entering folder place scene.machine) (·.Lodges folder place) scene :=
    ⟨.refl aimed, fits⟩
  refine .bind (screen_attended quiet start handle.trim replace) (fun _ _ h₁ => ?_)
    fun failure _ h₁ => refused h₁.machine failure
  refine .bind (h₁.passive quiet (.log _ _ _)) (fun _ _ h₂ => ?_)
    fun failure _ h₂ => refused h₂.machine failure
  refine .bind (client_attended (fun m hm => ?_) h₂) (fun client last h₃ => ?_)
    fun failure _ h₃ => refused h₃.1.machine failure
  · obtain ⟨holdings, tokens, entries⟩ := lodges.makes m hm.aimed
    refine ⟨⟨hm.aimed.exec _, hm.holdings.trans holdings, tokens.trans hm.tokens,
      entries.trans hm.entries⟩, fun client made => ?_⟩
    exact lodges.made m client _ (Prod.ext made rfl)
  · have h := h₃.1.machine
    refine .lift ?_
    have authorized := h₃.2 client rfl handle.trim last.machine h.aimed
    unfold Action.Ends at authorized ⊢
    refine ⟨h.aimed.exec _, h.holdings.trans authorized.1, ?_⟩
    have told := authorized.2
    cases ho : ((client.authorize handle.trim).exec last.machine).1 with
    | error failure =>
      rw [ho] at told
      exact told.trans h.tokens
    | ok authorization =>
      rw [ho, h.entries] at told
      exact told

/-- Taking the session lock changes nothing that is held. -/
theorem acquire_sparesHoldings (keeper : Keeper) (aimed : Aimed folder place machine) :
    SameHoldings place machine ((keeper.lock.acquire lockKey).exec machine).2 :=
  .of_leaves aimed (Lock.acquire_touches fileName?_lockKey).leavesOctets (by decide)
    (Lock.acquire_keychain _ _ _)

theorem acquire_keepsTokens (lock : keeper.lock.folder = folder)
    (aimed : Aimed folder place machine)
    (some_set : Record.Store.entriesOn ⟨folder.child tokensName⟩ machine ≠ []) :
    Record.Store.entriesOn ⟨folder.child tokensName⟩ ((keeper.lock.acquire lockKey).exec machine).2 =
      Record.Store.entriesOn ⟨folder.child tokensName⟩ machine := by
  obtain ⟨there, g, hn⟩ := (Record.Store.isThere_of_entriesOn_ne_nil some_set).exists_ground
    aimed.numbered (by decide)
  have only := Lock.acquire_confined lock fileName?_lockKey not_isReserved_marker.1 machine g
  have later : Ground ((keeper.lock.acquire lockKey).exec machine).2 folder there := g.exec rfl only
  rw [Record.Store.entriesOn, Record.Store.entriesOn, Record.Store.reading_of_ground g hn,
    Record.Store.reading_of_ground later hn, only.under (by decide)]

/-- A login that does not get as far as its section changes nothing but the token sets, and these
only when its subject was authorized: then they have a set for the subject besides what they had. -/
theorem failed_login_leaves_tokens {options : Options} {origin start : Machine}
    (made : (make folder options).exec origin = (.ok keeper, start))
    (lodges : options.factory.Lodges keeper.stores folder place)
    (fits : ∀ client, scene.client = some client → client.Lodges folder place)
    (aimed : Aimed folder place scene.machine) {handle : Text} {replace : Bool} {failure : Failure}
    {later : Option OAuth.Client}
    (refused : (keeper.approach handle replace).exec scene.client scene.machine =
      (.error failure, later, after)) :
    (keeper.login handle replace).exec scene.client scene.machine = (.error failure, later, after) ∧
      SameHoldings place scene.machine after ∧
      match ((keeper.letIn handle replace).exec scene.client scene.machine).1 with
      | .error _ => SameTokens place scene.machine after
      | .ok authorization => ∃ tokens, keeper.stores.sessions.entriesOn after =
          (keeper.stores.sessions.entriesOn scene.machine).put authorization.subject tokens := by
  obtain ⟨own, -⟩ := madeIn_of_make made
  have lodges : keeper.factory.Lodges keeper.stores folder place := own.factory ▸ lodges
  refine ⟨login_of_approach refused, ?_⟩
  have admitted := letIn_ends lodges fits aimed handle replace
  unfold SessionAction.Ends at admitted
  unfold approach at refused
  rcases ha : (keeper.letIn handle replace).exec scene.client scene.machine with
    ⟨fault | authorization, client', reached⟩ <;> rw [ha] at admitted
  · rw [SessionAction.exec_bind_error ha] at refused
    obtain ⟨⟩ := refused
    exact admitted.2
  · rw [SessionAction.exec_bind_ok ha, SessionAction.exec_bind, SessionAction.exec_lift] at refused
    obtain ⟨aimed', holdings, tokens, told⟩ := admitted
    have quiet := Machine.Quiet.of_passive
      (keeper.keyserver.fetchPassphrase_passive authorization.accessToken?) reached
    rw [own.tokens]
    rcases hf : (keeper.keyserver.fetchPassphrase authorization.accessToken?).exec reached with
      ⟨fault | passphrase, fetched⟩ <;> rw [hf] at refused quiet
    · obtain ⟨⟩ := refused
      refine ⟨holdings.trans (.of_quiet quiet), tokens, ?_⟩
      rw [Record.Store.entriesOn_of_quiet _ quiet, told]
    · dsimp only at refused
      rw [SessionAction.exec_bind, SessionAction.exec_lift] at refused
      have aimed' := aimed'.of_quiet quiet
      have same := Record.Store.entriesOn_of_quiet ⟨folder.child tokensName⟩ quiet
      have left := acquire_sparesHoldings keeper aimed'
      have kept := acquire_keepsTokens own.lock aimed' (by rw [same, told]; exact Assoc.put_ne_nil _ _ _)
      rcases hl : (keeper.lock.acquire lockKey).exec fetched with ⟨fault | marker, locked⟩ <;>
        rw [hl] at refused left kept
      · obtain ⟨⟩ := refused
        exact ⟨(holdings.trans (.of_quiet quiet)).trans left, tokens, by rw [kept, same, told]⟩
      · cases (Prod.mk.inj refused).1

/-- The client that knows one account stores its token set and nothing else. -/
theorem accountFactory_lodges {subject : Text} (joined : subject.IsJoined) {stores : OAuth.Stores}
    (tokens : stores.sessions = ⟨folder.child tokensName⟩) :
    (accountFactory subject).Lodges stores folder place := by
  have file : Tree.IsFileName tokensName := ⟨by decide, by decide⟩
  have own : ∀ name ∈ ownNames, ¬ (name = tokensName ∨ ∃ k, name = Machine.temporaryName tokensName k) :=
    fun name hn temporary => not_isReserved_tokens name temporary (isReserved_of_mem hn)
  refine ⟨fun machine _ => ⟨.of_quiet (.refl machine), rfl, rfl⟩, fun machine client after h => ?_⟩
  obtain ⟨⟩ := h
  intro handle machine aimed
  rw [tokens]
  have put := Record.Store.put_aimed aimed file joined isRegular_accessToken
  have spared := SameHoldings.of_leaves aimed
    (Record.Store.put_leaves file subject (.obj [("access_token", .str "t")])) own put.1
  refine .bind (P := fun outcome between => SameHoldings place machine between ∧ match outcome with
      | .ok _ => ∃ set, Record.Store.entriesOn ⟨folder.child tokensName⟩ between =
          (Record.Store.entriesOn ⟨folder.child tokensName⟩ machine).put subject set
      | .error _ => SameTokens place machine between) ?_ (fun _ _ h => .of_exec rfl h) fun _ _ h => h
  refine ⟨spared, ?_⟩
  have told := put.2
  cases ho : ((Record.Store.put ⟨folder.child tokensName⟩ subject
      (.obj [("access_token", .str "t")])).exec machine).1 with
  | ok _ =>
    rw [ho] at told
    exact ⟨_, told⟩
  | error _ =>
    rw [ho] at told
    exact told

end Keeper

end

namespace Keeper

open scoped SessionKeeper.Runtime

/-- An empty folder, and a keyserver that refuses. -/
def deafMachine : Machine := { Machine.bare with keyserver := fun _ _ => .ok ⟨500, [], none⟩ }

/-- Whether something failed because the keyserver had an error of its own. -/
def isServerError {α : Type} : Except Failure α → Bool
  | .error (.noCredentials (.status 500)) => true
  | _ => false

theorem eq_of_isServerError {α : Type} {outcome : Except Failure α}
    (h : isServerError outcome = true) : outcome = .error (.noCredentials (.status 500)) := by
  unfold isServerError at h
  split at h
  · rfl
  · cases h

/-- The keyserver refuses, and of the login the token set is left. -/
theorem deaf_login_leaves_token : ∃ client after,
    (steadyKeeper.login "a" false).exec none deafMachine =
        (.error (.noCredentials (.status 500)), client, after) ∧
      SameHoldings ["home"] deafMachine after ∧
      ∃ tokens, steadyKeeper.stores.sessions.entriesOn after =
        (steadyKeeper.stores.sessions.entriesOn deafMachine).put "did:plc:a" tokens := by
  have refused : isServerError ((steadyKeeper.approach "a" false).exec none deafMachine).1 = true := by
    decide +kernel
  have admitted : ((steadyKeeper.letIn "a" false).exec none deafMachine).1.toOption.map
      OAuth.Authorization.subject = some ("did:plc:a" : Text) := by decide +kernel
  have made : (make ⟨"/", ["home"]⟩ { factory := steadyFactory }).exec Machine.bare =
      (.ok steadyKeeper, steadyMade.2) := (eq_ok_get _ : steadyMade = _)
  obtain ⟨own, -⟩ := madeIn_of_make made
  have lodges : steadyFactory.Lodges steadyKeeper.stores ⟨"/", ["home"]⟩ ["home"] :=
    accountFactory_lodges (by decide) own.tokens
  have aimed : Aimed ⟨"/", ["home"]⟩ ["home"] deafMachine := ⟨Machine.ground_bare.numbered,
    fun _ _ leads => Tree.walk_unique leads Machine.ground_bare.leads⟩
  generalize steadyMade.2 = start at made
  generalize deafMachine = machine at refused admitted aimed ⊢
  generalize steadyKeeper = keeper at made refused admitted lodges ⊢
  rcases hr : (keeper.approach "a" false).exec none machine with ⟨outcome, later, after⟩
  rw [hr] at refused
  obtain rfl := eq_of_isServerError refused
  have scene : ∀ client, (⟨none, machine⟩ : Scene).client = some client →
      client.Lodges ⟨"/", ["home"]⟩ ["home"] := fun _ none_there => by cases none_there
  obtain ⟨failed, holdings, left⟩ := failed_login_leaves_tokens made lodges scene aimed hr
  refine ⟨later, after, failed, holdings, ?_⟩
  dsimp only at left
  rcases ha : ((keeper.letIn "a" false).exec none machine).1 with failure | authorization
  · rw [ha] at admitted
    cases admitted
  · rw [ha] at admitted left
    have subject : authorization.subject = "did:plc:a" := Option.some.inj admitted
    rw [← subject]
    exact left

/-- So a login that persisted nothing of its session has not left everything as it was. -/
theorem token_outlives_failed_login :
    ((steadyKeeper.approach "a" false).exec none deafMachine).1 =
        .error (.noCredentials (.status 500)) ∧
      ((steadyKeeper.login "a" false).exec none deafMachine).1 =
        .error (.noCredentials (.status 500)) ∧
      ¬ SameTokens ["home"] deafMachine ((steadyKeeper.login "a" false).exec none deafMachine).2.2 := by
  refine ⟨eq_of_isServerError (by decide +kernel), eq_of_isServerError (by decide +kernel), ?_⟩
  unfold SameTokens
  decide +kernel

end Keeper

end SessionKeeper
