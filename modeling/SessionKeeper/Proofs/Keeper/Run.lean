import SessionKeeper.Proofs.Keeper.Changes

/-!
# Runs of a keeper

A run is any sequence of operations on the sessions of a folder, with time passing and the
OAuth client perhaps another one between them. Its trace has every operation with how it
ended, the latest one first. From an empty folder on, the index has at most one session,
which is that of the latest operation that made one and returned.
-/
namespace SessionKeeper.Keeper

/-- What can be done with the sessions of a folder. -/
inductive Operation where
  | login (handle : Text) (replace : Bool)
  | registerWorker (id name secret : Text)
  | clear
  | removeWorker (id : Text)
  | load

/-- Whether the operation makes a session current when it returns. -/
def Operation.isEntry : Operation → Bool
  | .login .. => true
  | .registerWorker .. => true
  | _ => false

section

variable [Runtime]

/-- Runs an operation; the result is the session that it is about, if it has one. -/
def perform (keeper : Keeper) : Operation → SessionAction (Option Session)
  | .login handle replace => do return some (.account (← keeper.login handle replace))
  | .registerWorker id name secret => do
    return some (.worker (← keeper.registerWorker id name secret))
  | .clear => keeper.clear
  | .removeWorker id => do
    let _ ← keeper.removeWorker id
    return none
  | .load => keeper.load

/-- How an operation ended. -/
abbrev Ending := Except Failure (Option Session)

/-- The operations of a run and how they ended, the latest one first. -/
abbrev Trace := List (Operation × Ending)

/-- The runs of a keeper from a machine on. Between operations the clock is set to any time,
and a client of the kind that is expected may come in place of the one that was made. -/
inductive Run (keeper : Keeper) (expected : OAuth.Client → Prop) (start : Machine) :
    Trace → Scene → Prop where
  | start : Run keeper expected start [] ⟨none, start⟩
  | perform {trace : Trace} {scene after : Scene} {ending : Ending} (operation : Operation)
      (before : Run keeper expected start trace scene)
      (ends : (keeper.perform operation).exec scene.client scene.machine =
        (ending, after.client, after.machine)) :
      Run keeper expected start ((operation, ending) :: trace) after
  | wait {trace : Trace} {scene : Scene} (now : Moment) (sound : now.IsSound)
      (before : Run keeper expected start trace scene) :
      Run keeper expected start trace ⟨scene.client, { scene.machine with now }⟩
  | meet {trace : Trace} {scene : Scene} (client : Option OAuth.Client)
      (fits : ∀ c, client = some c → expected c)
      (before : Run keeper expected start trace scene) :
      Run keeper expected start trace ⟨client, scene.machine⟩

theorem Run.next {keeper : Keeper} {expected : OAuth.Client → Prop} {start : Machine}
    {trace : Trace} {scene : Scene} (before : Run keeper expected start trace scene)
    (operation : Operation) {ending : Ending}
    (ends : ((keeper.perform operation).exec scene.client scene.machine).1 = ending) :
    Run keeper expected start ((operation, ending) :: trace)
      ⟨((keeper.perform operation).exec scene.client scene.machine).2.1,
        ((keeper.perform operation).exec scene.client scene.machine).2.2⟩ :=
  before.perform operation (by rw [← ends])

variable {keeper : Keeper} {folder : Path} {place : Location} {current : Option Session}
  {scene : Scene}

/-- Every operation leaves an index with one session at most, and one that makes a session and
returns leaves that. -/
theorem perform_ends (kept : keeper.KeptIn folder place) (h : Kept folder place current scene)
    (operation : Operation) : (keeper.perform operation).Ends scene fun ending after =>
      ∃ shown, Kept folder place shown after ∧
        ∀ session, operation.isEntry = true → ending = .ok (some session) →
          shown = some session := by
  cases operation with
  | login handle replace =>
    refine .bind (login_ends kept h handle replace) (fun s after ⟨shown, hs, told⟩ => ?_)
      fun _ _ ⟨shown, hs, _⟩ => ⟨shown, hs, nofun⟩
    refine .pure ⟨shown, hs, fun session _ he => ?_⟩
    rw [← Option.some.inj (Except.ok.inj he)]
    exact told s rfl
  | registerWorker id name secret =>
    refine .bind (registerWorker_ends kept h id name secret) (fun s after ⟨shown, hs, told⟩ => ?_)
      fun _ _ ⟨shown, hs, _⟩ => ⟨shown, hs, nofun⟩
    refine .pure ⟨shown, hs, fun session _ he => ?_⟩
    rw [← Option.some.inj (Except.ok.inj he)]
    exact told s rfl
  | clear => exact (clear_ends kept h).mono fun _ _ ⟨shown, hs⟩ => ⟨shown, hs, nofun⟩
  | removeWorker id =>
    refine .bind (removeWorker_ends kept h id) (fun _ _ ⟨shown, hs⟩ => ?_)
      fun _ _ ⟨shown, hs⟩ => ⟨shown, hs, nofun⟩
    exact .pure ⟨shown, hs, nofun⟩
  | load => exact (h.lift (load_spares kept)).mono fun _ _ hs => ⟨current, hs, nofun⟩

/-- What a run leaves in the index. -/
theorem kept_of_run (kept : keeper.KeptIn folder place) {start : Machine}
    (fresh : Shows folder place none start) {trace : Trace}
    (run : Run keeper (·.IsApart folder place) start trace scene) :
    ∃ shown, Kept folder place shown scene ∧ ∀ operation session rest,
      trace = (operation, .ok (some session)) :: rest → operation.isEntry = true →
        shown = some session := by
  induction run with
  | start => exact ⟨none, ⟨fresh, nofun⟩, nofun⟩
  | perform operation before ends ih =>
    obtain ⟨current, hc, -⟩ := ih
    have h := perform_ends kept hc operation
    unfold SessionAction.Ends at h
    rw [ends] at h
    obtain ⟨shown, hs, told⟩ := h
    refine ⟨shown, hs, fun other session rest ht he => ?_⟩
    obtain ⟨hpair, -⟩ := List.cons.inj ht
    obtain ⟨rfl, hending⟩ := Prod.mk.inj hpair
    exact told session he hending
  | wait now sound before ih =>
    obtain ⟨shown, hs, told⟩ := ih
    have orderly : Orderly folder place _ := hs.shows.orderly
    refine ⟨shown, ⟨⟨⟨⟨orderly.ground.leads, orderly.ground.stands, orderly.ground.numbered⟩,
      fun own ho => ⟨(orderly.writable own ho).free, (orderly.writable own ho).plain⟩⟩,
      hs.shows.written, hs.shows.sound, sound⟩, hs.client⟩, told⟩
  | meet client fits before ih =>
    obtain ⟨shown, hs, told⟩ := ih
    exact ⟨shown, ⟨hs.shows, fits⟩, told⟩

/-- That the index does not exist or has one entry: the record of a session that can be read,
under the session's subject and without any secret. -/
def HasSingleSession (place : Location) (machine : Machine) : Prop :=
  machine.under place indexName = none ∨
    ∃ number mode octets subject record,
      machine.under place indexName = some (.file number mode octets) ∧
      Record.entriesOf octets = .ok (.ok [(subject, record)]) ∧
      record.member? "subject_id" = some (.str subject) ∧
      (∀ now, ∃ session, Session.read now record = .ok session ∧ session.subject = subject) ∧
      record.mentions "secret" = false ∧ record.mentions "derived_secret" = false

theorem Shows.hasSingleSession {machine : Machine} (h : Shows folder place current machine) :
    HasSingleSession place machine := by
  rcases h.holds with ⟨-, gone⟩ | ⟨number, mode, octets, there, entries⟩
  · exact Or.inl gone
  · cases current with
    | none => exact Or.inl h.written
    | some session =>
      refine Or.inr ⟨number, mode, octets, _, _, there, entries, session.member?_reread,
        fun now => ⟨_, session.read_reread (h.sound session rfl) now, session.subject_recalled⟩,
        session.mentions_reread _ (Or.inl rfl), session.mentions_reread _ (Or.inr rfl)⟩

/-- That a keeper has its files in a folder and the rest from its options. -/
structure MadeIn (keeper : Keeper) (folder : Path) (options : Options) : Prop where
  index : keeper.index = ⟨folder.child indexName⟩
  workers : keeper.workers = ⟨folder.child workersName⟩
  tokens : keeper.stores.sessions = ⟨folder.child tokensName⟩
  lock : keeper.lock.folder = folder
  factory : keeper.factory = options.factory
  service : keeper.secretService = options.secretService
  secrets : keeper.secrets = options.secrets.getD (.ofVault (.inFolder folder))

omit [Runtime] in
theorem ofDuration_passive (result : Except DurationFault Duration) :
    (ofDuration result).IsPassive := by
  cases result with
  | ok duration => exact .pure _
  | error fault => exact .throw _

/-- Making the rest of a keeper once its backend is there. -/
theorem equipped_ends (folder : Path) (options : Options) (machine : Machine)
    {secrets : Secret.Backend} (hs : secrets = options.secrets.getD (.ofVault (.inFolder folder))) :
    (do
      let staleAfter ← ofDuration (Duration.ofSeconds options.lockStaleAfter)
      let holder : Int ← Action.ask .processId
      let lifetime ← ofDuration (Duration.ofSeconds options.stateLifetime)
      return {
        folder, secrets
        secretService := options.secretService
        keyserver := options.keyserver
        factory := options.factory
        index := ⟨folder.child indexName⟩
        workers := ⟨folder.child workersName⟩
        stores := {
          sessions := ⟨folder.child tokensName⟩
          states := ⟨⟨folder.child statesName⟩, lifetime⟩
          lock := ⟨folder, staleAfter, holder⟩
          metadata := options.metadata } } : Action Keeper).Ends machine
      fun outcome after => after.belongings = machine.belongings ∧
        ∀ keeper, outcome = .ok keeper → keeper.MadeIn folder options := by
  have passive {α : Type} {action : Action α} {before : Machine} (hp : action.IsPassive)
      (hb : before.belongings = machine.belongings) :
      action.Ends before fun _ after => after.belongings = machine.belongings :=
    (hp before).trans hb
  refine .bind (passive (ofDuration_passive _) rfl) (fun staleAfter _ h₁ => ?_)
    fun _ _ h => ⟨h, nofun⟩
  refine .bind (passive (fun _ => rfl) h₁) (fun holder _ h₂ => ?_) fun _ _ h => ⟨h, nofun⟩
  refine .bind (passive (ofDuration_passive _) h₂) (fun lifetime _ h₃ => ?_)
    fun _ _ h => ⟨h, nofun⟩
  refine ⟨h₃, ?_⟩
  rintro _ ⟨⟩
  exact ⟨rfl, rfl, rfl, rfl, rfl, rfl, hs⟩

/-- A keeper that was made has its files in the folder, and nothing was changed. -/
theorem madeIn_of_make {options : Options} {machine after : Machine}
    (h : (make folder options).exec machine = (.ok keeper, after)) :
    keeper.MadeIn folder options ∧ after.belongings = machine.belongings := by
  have ends : (make folder options).Ends machine fun outcome after =>
      after.belongings = machine.belongings ∧
        ∀ keeper, outcome = .ok keeper → keeper.MadeIn folder options := by
    unfold make
    cases ho : options.secrets with
    | some backend => exact equipped_ends folder options machine (by rw [ho]; rfl)
    | none =>
      refine .bind (P := fun outcome after => after.belongings = machine.belongings ∧
        outcome = .ok (.ofVault (.inFolder folder))) ⟨rfl, rfl⟩ (fun secrets between hb => ?_)
        fun _ _ hb => nomatch hb.2
      rw [← hb.1, Except.ok.inj hb.2]
      exact equipped_ends folder options between (by rw [ho]; rfl)
  unfold Action.Ends at ends
  rw [h] at ends
  exact ⟨ends.2 keeper rfl, ends.1⟩

theorem changedOnly_of_make {options : Options} {origin start : Machine}
    (made : (make folder options).exec origin = (.ok keeper, start)) :
    ChangedOnly place (fun _ => False) origin start :=
  .of_tree (congrArg Prod.fst (madeIn_of_make made).2)

theorem Shows.of_make {options : Options} {origin start : Machine}
    (made : (make folder options).exec origin = (.ok keeper, start))
    (ground : Ground origin folder place) (empty : ∀ name, origin.under place name = none)
    (clock : origin.now.IsSound) : Shows folder place none start := by
  have fixed : origin.SameCircumstances start := by
    have h := Machine.SameCircumstances.of_exec (make folder options) origin
    rw [made] at h
    exact h
  have only : ChangedOnly place (fun _ => False) origin start := changedOnly_of_make made
  have none_there (name : String) : start.under place name = none :=
    (only.under not_false).trans (empty name)
  exact ⟨.of_empty (ground.exec made only) none_there, none_there indexName, nofun,
    fixed.now ▸ clock⟩

/-- From an empty folder on, the index has a single session or none after every operation,
whatever failed; after an operation that made a session and returned, it is written with the
record of that session and nothing else. -/
theorem hasSingleSession_of_run {options : Options} {origin start : Machine}
    (made : (make folder options).exec origin = (.ok keeper, start))
    (ground : Ground origin folder place) (empty : ∀ name, origin.under place name = none)
    (clock : origin.now.IsSound)
    (secrets : ∀ backend, options.secrets = some backend → backend.SparesIndex folder place)
    (clients : options.factory.IsApart keeper.stores folder place) {trace : Trace}
    (run : Run keeper (·.IsApart folder place) start trace scene) :
    HasSingleSession place scene.machine ∧ ∀ operation session rest,
      trace = (operation, .ok (some session)) :: rest → operation.isEntry = true →
        Record.Written scene.machine place indexName [(session.subject, session.indexRecord)] := by
  obtain ⟨own, -⟩ := madeIn_of_make made
  have kept : keeper.KeptIn folder place := by
    refine ⟨own.index, own.workers, own.tokens, own.lock, ?_, own.factory ▸ clients⟩
    rw [own.secrets]
    cases ho : options.secrets with
    | none => exact Secret.Vault.sparesIndex
    | some backend => exact secrets backend ho
  obtain ⟨shown, hs, told⟩ := kept_of_run kept (.of_make made ground empty clock) run
  refine ⟨hs.shows.hasSingleSession, fun operation session rest ht he => ?_⟩
  have written := hs.shows.written
  rw [told operation session rest ht he] at written
  exact written

/-- A client for which every handle is its own subject. It keeps its token sets in the store
that it is given. -/
def plainFactory : OAuth.Factory := fun stores => return {
  authorize := fun handle => do
    stores.sessions.put handle (.obj [("access_token", .str "t")])
    return ⟨handle, [("access_token", .str "t")]⟩
  restore := fun _ => throw .oauthUnavailable
  revoke := stores.sessions.remove }

theorem isApart_of_plainFactory {stores : OAuth.Stores} {folder : Path} {place : Location}
    (tokens : stores.sessions = ⟨folder.child tokensName⟩) {machine after : Machine}
    {client : OAuth.Client} (h : (plainFactory stores).exec machine = (.ok client, after)) :
    client.IsApart folder place := by
  obtain ⟨⟩ := h
  have hn : Tree.IsFileName tokensName := ⟨by decide, by decide⟩
  refine ⟨fun handle => ?_, fun subject => ?_⟩
  · refine .bind ?_ fun _ => .pure _
    rw [tokens]
    exact (Record.Store.put_confined hn _ _).mono not_isReserved_tokens
  · rw [tokens]
    exact (Record.Store.remove_confined hn _).mono not_isReserved_tokens

theorem plainFactory_isApart {stores : OAuth.Stores} {folder : Path} {place : Location}
    (tokens : stores.sessions = ⟨folder.child tokensName⟩) :
    plainFactory.IsApart stores folder place :=
  ⟨.pure _, fun _ _ _ _ h => isApart_of_plainFactory tokens h⟩

end

theorem isSound_bare : Machine.bare.now.IsSound := by
  rintro _ ⟨⟩
  decide

theorem ending_eq_ok {ending : Ending} {session : Session}
    (h : ending.toOption = some (some session)) : ending = .ok (some session) := by
  cases ending with
  | error failure => nomatch h
  | ok found => rw [Option.some.inj h]

/-- What is known to have returned, returned what it is found to have. -/
theorem eq_ok_get {α β : Type} {pair : Except Failure α × β}
    (returned : pair.1.toOption.isSome = true) :
    pair = (.ok (pair.1.toOption.get returned), pair.2) := by
  obtain ⟨failure | a, b⟩ := pair
  · nomatch returned
  · rfl

open scoped SessionKeeper.Runtime in
/-- Making a keeper for the empty folder. -/
def plainMade : Except Failure Keeper × Machine :=
  (make ⟨"/", ["home"]⟩ { factory := plainFactory }).exec Machine.bare

open scoped SessionKeeper.Runtime in
def plainKeeper : Keeper := plainMade.1.toOption.get (by decide +kernel)

open scoped SessionKeeper.Runtime in
/-- Logging in on the empty folder leaves a single session. -/
theorem hasSingleSession_of_login : ∃ scene, Run plainKeeper (·.IsApart ⟨"/", ["home"]⟩ ["home"])
      plainMade.2 [(.login "a.b" false, .ok (some (.account ⟨"a.b", "a.b", some "p"⟩)))] scene ∧
    HasSingleSession ["home"] scene.machine ∧
    Record.Written scene.machine ["home"] indexName
      [("a.b", (Session.account ⟨"a.b", "a.b", some "p"⟩).indexRecord)] := by
  have returned : ((plainKeeper.perform (.login "a.b" false)).exec none plainMade.2).1 =
      .ok (some (.account ⟨"a.b", "a.b", some "p"⟩)) := ending_eq_ok (by decide +kernel)
  have made : (make ⟨"/", ["home"]⟩ { factory := plainFactory }).exec Machine.bare =
      (.ok plainKeeper, plainMade.2) := (eq_ok_get _ : plainMade = _)
  have tokens : plainKeeper.stores.sessions = ⟨(⟨"/", ["home"]⟩ : Path).child tokensName⟩ := by
    decide +kernel
  have clients : plainFactory.IsApart plainKeeper.stores ⟨"/", ["home"]⟩ ["home"] :=
    plainFactory_isApart tokens
  generalize plainMade.2 = start at made returned
  generalize plainKeeper = keeper at made returned clients
  have first : Run keeper (·.IsApart ⟨"/", ["home"]⟩ ["home"]) start [] ⟨none, start⟩ := .start
  have run := first.next (.login "a.b" false) returned
  have h := hasSingleSession_of_run made Machine.ground_bare Machine.under_bare isSound_bare
    nofun clients run
  exact ⟨_, run, h.1, h.2 (.login "a.b" false) (.account ⟨"a.b", "a.b", some "p"⟩) [] rfl rfl⟩

end SessionKeeper.Keeper
