import SessionKeeper.Proofs.Keeper.Books
import SessionKeeper.Proofs.Keeper.Run
import SessionKeeper.Proofs.Lock.Spans

/-!
# Keepers that agree

Two keepers that differ in their backends for secrets agree in all that can be asked of them, when
the backends agree, the files of both look the same and the OAuth client and the keyserver behave
the same: what they return differs at most in secrets that go together. This is followed from
each step of an operation to the whole.
-/
namespace SessionKeeper

/-- Workers that differ in their secrets at most, which go together. -/
inductive Worker.Matches (same : Text → Text → Prop) : Worker → Worker → Prop where
  | intro (id name : Text) (created : Moment) {s t : Option Text} (h : Option.Rel same s t) :
    Matches same ⟨id, name, s, created⟩ ⟨id, name, t, created⟩

/-- Sessions of an account that differ in their passphrases at most, which go together. -/
inductive AccountSession.Matches (same : Text → Text → Prop) :
    AccountSession → AccountSession → Prop where
  | intro (subject handle : Text) {s t : Option Text} (h : Option.Rel same s t) :
    Matches same ⟨subject, handle, s⟩ ⟨subject, handle, t⟩

/-- Sessions of a worker that differ in the worker's secret at most. -/
inductive WorkerSession.Matches (same : Text → Text → Prop) :
    WorkerSession → WorkerSession → Prop where
  | intro (subject handle : Text) {v w : Worker} (h : Worker.Matches same v w) :
    Matches same ⟨subject, handle, v⟩ ⟨subject, handle, w⟩

/-- Sessions that differ in their secrets at most, which go together. -/
inductive Session.Matches (same : Text → Text → Prop) : Session → Session → Prop where
  | account {s t : AccountSession} (h : AccountSession.Matches same s t) :
    Matches same (.account s) (.account t)
  | worker {s t : WorkerSession} (h : WorkerSession.Matches same s t) :
    Matches same (.worker s) (.worker t)

namespace Session.Matches

variable {same : Text → Text → Prop} {s t : Session}

theorem subject_eq (h : Session.Matches same s t) : t.subject = s.subject := by
  cases h with
  | account h => cases h; rfl
  | worker h => cases h; rfl

theorem handle_eq (h : Session.Matches same s t) : t.handle = s.handle := by
  cases h with
  | account h => cases h; rfl
  | worker h => cases h; rfl

theorem indexRecord_eq (h : Session.Matches same s t) : t.indexRecord = s.indexRecord := by
  cases h with
  | account h => cases h; rfl
  | worker h =>
    cases h with
    | intro subject handle h => cases h; rfl

theorem secret (h : Session.Matches same s t) : Option.Rel same s.secret? t.secret? := by
  cases h with
  | account h => cases h; assumption
  | worker h =>
    cases h with
    | intro subject handle h => cases h; assumption

theorem syncAccount_eq (h : Session.Matches same s t) :
    Keeper.syncAccount t = Keeper.syncAccount s := by
  cases h with
  | account h => cases h; rfl
  | worker h =>
    cases h with
    | intro subject handle h => cases h; rfl

end Session.Matches

variable [Runtime]

namespace Keyserver

/-- That two replies stop with the same failure, or both tell of no passphrase or of ones that go
together. -/
inductive Told (same : Text → Text → Prop) :
    Except Failure (Option Text) → Except Failure (Option Text) → Prop where
  | failure (failure : Failure) : Told same (.error failure) (.error failure)
  | told {p q : Option Text} (h : Option.Rel same p q) : Told same (.ok p) (.ok q)

/-- That two requests ended with the same fault or status, and if they succeeded with passphrases
that go together. -/
inductive Outcome.Matches (same : Text → Text → Prop) : Outcome → Outcome → Prop where
  | fault (name : String) : Matches same (.error name) (.error name)
  | reply {r s : Reply} (status : s.status = r.status)
    (told : r.isSuccess = true → Told same (Client.passphrase? r) (Client.passphrase? s)) :
    Matches same (.ok r) (.ok s)

/-- Passphrases that are fetched go together when the keyserver's answers do. -/
theorem Client.fetchPassphrase_agrees {L : Likeness} {same : Text → Text → Prop}
    (log : ∀ level channel message, (Action.log level channel message).Agrees L Eq
      (Action.log level channel message))
    (post : ∀ request, (Action.ask (.post request)).Agrees L (Outcome.Matches same)
      (Action.ask (.post request))) (client : Client) (token : Option Text) :
    (client.fetchPassphrase token).Agrees L same (client.fetchPassphrase token) := by
  have giveUp (cause : KeyserverFault) : (giveUp cause : Action Text).Agrees L same (giveUp cause) :=
    (log _ _ _).bind_eq fun _ => .throw _
  unfold fetchPassphrase
  split
  · exact .throw _
  · dsimp only
    split
    · exact .throw _
    · refine (post _).bind fun outcome other h => ?_
      cases h with
      | fault name => exact giveUp _
      | @reply r s status told =>
        have success : s.isSuccess = r.isSuccess := by rw [Reply.isSuccess, status, Reply.isSuccess]
        dsimp only
        rw [success, status]
        split
        · exact giveUp _
        · rename_i succeeded
          have told := told (by simpa using succeeded)
          generalize passphrase? r = p at told ⊢
          generalize passphrase? s = q at told ⊢
          cases told with
          | failure failure => exact .throw _
          | told h =>
            cases h with
            | none => exact (log _ _ _).bind_eq fun _ => .throw _
            | some h => exact .pure h

end Keyserver

namespace Keeper

def secretAccount : Session → Text
  | .account s => s.subject
  | .worker s => s.worker.id

def withSecrets (keeper : Keeper) (secrets : Secret.Backend) : Keeper := { keeper with secrets }

def Options.withSecrets (options : Options) (secrets : Secret.Backend) : Options :=
  { options with secrets := some secrets }

/-- That the files of a keeper and its lock look the same on machines that are alike. -/
structure Files (L : Likeness) (keeper : Keeper) : Prop where
  clock : Action.now.Agrees L Eq Action.now
  log (level : Level) (channel : Channel) (message : String) :
    (Action.log level channel message).Agrees L Eq (Action.log level channel message)
  index : keeper.index.entries.Agrees L Eq keeper.index.entries
  putIndex (key : Text) (value : Json) :
    (keeper.index.put key value).Agrees L Eq (keeper.index.put key value)
  removeIndex (key : Text) : (keeper.index.remove key).Agrees L Eq (keeper.index.remove key)
  workers : keeper.workers.entries.Agrees L Eq keeper.workers.entries
  putWorker (key : Text) (value : Json) :
    (keeper.workers.put key value).Agrees L Eq (keeper.workers.put key value)
  dropWorker (key : Text) : (keeper.workers.remove key).Agrees L Eq (keeper.workers.remove key)
  tokens : keeper.stores.sessions.entries.Agrees L Eq keeper.stores.sessions.entries
  removeTokens (key : Text) :
    (keeper.stores.sessions.remove key).Agrees L Eq (keeper.stores.sessions.remove key)
  acquire : (keeper.lock.acquire lockKey).Agrees L
    (fun marker other => marker = other ∧ marker.key = lockKey) (keeper.lock.acquire lockKey)
  release {marker : Lock.Marker} (h : marker.key = lockKey) :
    (keeper.lock.release marker).Agrees L Eq (keeper.lock.release marker)

theorem Files.of_spans {L : Likeness} {keeper : Keeper} {folder : Path} {options : Options}
    {names : String → Prop} {opened : Nat → Nat → Machine → Machine → Prop}
    (spans : L.Spans folder names opened)
    (plain : ∀ name ∈ [indexName, workersName, tokensName, markName], names name)
    (own : keeper.MadeIn folder options) : Files L keeper := by
  have index : names indexName := plain _ (by simp)
  have workers : names workersName := plain _ (by simp)
  have tokens : names tokensName := plain _ (by simp)
  have mark : names markName := plain _ (by simp)
  refine ⟨spans.clock, fun _ _ _ => spans.log _ _ _, ?_, ?_, ?_, ?_, ?_, ?_, ?_, ?_,
    spans.acquire own.lock mark fileName?_lockKey,
    fun h => spans.release own.lock mark (h ▸ fileName?_lockKey)⟩
  · rw [own.index]
    exact spans.entries index
  · rw [own.index]
    exact spans.put index
  · rw [own.index]
    exact spans.remove index
  · rw [own.workers]
    exact spans.entries workers
  · rw [own.workers]
    exact spans.put workers
  · rw [own.workers]
    exact spans.remove workers
  · rw [own.tokens]
    exact spans.entries tokens
  · rw [own.tokens]
    exact spans.remove tokens

/-- That two backends cannot be told apart by a keeper that only looks: its own files look the
same, and the secrets that it finds go together. -/
structure Looks (L : Likeness) (same : Text → Text → Prop) (keeper : Keeper)
    (a b : Secret.Backend) : Prop extends Files L keeper where
  get? (service account : Text) :
    (a.get? service account).Agrees L (Option.Rel same) (b.get? service account)

section Looks

variable {L : Likeness} {same : Text → Text → Prop} {keeper : Keeper} {a b : Secret.Backend}

open SessionKeeper.Action (Agrees)

theorem Looks.readAll {α : Type} (looks : Looks L same keeper a b) (read : Json → Schema.Reading α)
    (warning : String) (values : List Json) :
    Agrees L Eq (readAll read warning values) (readAll read warning values) := by
  induction values with
  | nil => exact .pure rfl
  | cons value rest ih =>
    unfold Keeper.readAll
    split
    · exact ih.bind_eq fun _ => .pure rfl
    · exact (looks.log _ _ _).bind_eq fun _ => ih

theorem Looks.indexed (looks : Looks L same keeper a b) :
    Agrees L Eq (keeper.withSecrets a).indexed (keeper.withSecrets b).indexed :=
  looks.clock.bind_eq fun _ => looks.index.bind_eq fun _ => looks.readAll _ _ _

theorem Looks.current? (looks : Looks L same keeper a b) :
    Agrees L Eq (keeper.withSecrets a).current? (keeper.withSecrets b).current? := by
  refine looks.indexed.bind_eq fun sessions => ?_
  split
  · exact .pure rfl
  · exact .pure rfl
  · exact (looks.log _ _ _).bind_eq fun _ => .pure rfl

theorem Looks.registered (looks : Looks L same keeper a b) (worker : Worker) :
    Agrees L Eq ((keeper.withSecrets a).registered worker) ((keeper.withSecrets b).registered worker) := by
  have found : Agrees L Eq (keeper.workers.get? worker.id) (keeper.workers.get? worker.id) :=
    looks.workers.bind_eq fun _ => .pure rfl
  refine found.bind_eq fun record => ?_
  split
  · exact .pure rfl
  · exact .pure rfl
  · refine looks.clock.bind_eq fun now => ?_
    split
    · exact .pure rfl
    · exact (looks.log _ _ _).bind_eq fun _ => .pure rfl

theorem Looks.hydrate (looks : Looks L same keeper a b) (session : Session) :
    Agrees L (Session.Matches same) ((keeper.withSecrets a).hydrate session)
      ((keeper.withSecrets b).hydrate session) := by
  cases session with
  | worker session =>
    refine (looks.registered session.worker).bind_eq fun worker => ?_
    refine (looks.get? _ worker.id).bind fun s t h => ?_
    have result : Session.Matches same (.worker { session with worker := { worker with secret := s } })
        (.worker { session with worker := { worker with secret := t } }) :=
      .worker (.intro _ _ (.intro _ _ _ h))
    cases h with
    | none => exact (looks.log _ _ _).bind_eq fun _ => .pure result
    | some h => exact .pure result
  | account session => exact (looks.get? _ _).bind fun s t h => .pure (.account (.intro _ _ h))

theorem Looks.load (looks : Looks L same keeper a b) :
    Agrees L (Option.Rel (Session.Matches same)) (keeper.withSecrets a).load (keeper.withSecrets b).load := by
  refine looks.current?.bind_eq fun session => ?_
  cases session with
  | none => exact .pure .none
  | some session => exact (looks.hydrate session).bind fun _ _ h => .pure (.some h)

omit [Runtime] in
theorem oldestFirst_agrees (L : Likeness) (workers : List Worker) :
    Agrees L Eq (oldestFirst workers) (oldestFirst workers) := by
  unfold oldestFirst
  split
  · exact .pure rfl
  · exact .throw _

theorem Looks.listWorkers (looks : Looks L same keeper a b) :
    Agrees L Eq (keeper.withSecrets a).listWorkers (keeper.withSecrets b).listWorkers :=
  looks.clock.bind_eq fun _ => looks.workers.bind_eq fun _ =>
    (looks.readAll _ _ _).bind_eq fun _ => oldestFirst_agrees L _

theorem Looks.getWorker (looks : Looks L same keeper a b) (idOrName : Text) :
    Agrees L (Option.Rel (Worker.Matches same)) ((keeper.withSecrets a).getWorker idOrName)
      ((keeper.withSecrets b).getWorker idOrName) := by
  refine looks.listWorkers.bind_eq fun workers => ?_
  dsimp only
  split
  · exact .pure .none
  · exact (looks.get? _ _).bind fun _ _ h => .pure (.some (.intro _ _ _ h))

theorem Looks.isRegistered (looks : Looks L same keeper a b) (id : Text) :
    Agrees L Eq ((keeper.withSecrets a).isRegistered id) ((keeper.withSecrets b).isRegistered id) := by
  have found : Agrees L Eq (keeper.workers.get? id) (keeper.workers.get? id) :=
    looks.workers.bind_eq fun _ => .pure rfl
  refine found.bind_eq fun record => ?_
  split
  · exact .pure rfl
  · refine (looks.get? _ id).bind fun s t h => .pure ?_
    cases h with
    | none => rfl
    | some h => rfl

end Looks

/-- That two backends cannot be told apart by a keeper, next to a client of the kind that is
expected: what is done with its files, with the secrets of known accounts, with the lock, the client
and the keyserver agrees. -/
structure Joint (L : Likeness) (same : Text → Text → Prop) (known : Text → Prop)
    (fits : OAuth.Client → Prop) (keeper : Keeper) (a b : Secret.Backend) : Prop
    extends Looks L same keeper a b where
  empty {s t : Text} (h : same s t) : t.isEmpty = s.isEmpty
  put {service account s t : Text} (hs : service ∈ [keeper.workerService, keeper.passphraseService])
    (ha : known account) (h : same s t) :
    (a.put service account s).Agrees L Eq (b.put service account t)
  forget (service account : Text) :
    (a.remove service account).Agrees L Eq (b.remove service account)
  fetch (token : Option Text) : (keeper.keyserver.fetchPassphrase token).Agrees L same
    (keeper.keyserver.fetchPassphrase token)
  makes : (keeper.factory keeper.stores).Agrees L
    (fun client other => client = other ∧ fits client) (keeper.factory keeper.stores)
  authorize {client : OAuth.Client} (h : fits client) (handle : Text) :
    (client.authorize handle).Agrees L
      (fun authorization other => authorization = other ∧ known authorization.subject)
      (client.authorize handle)
  restore {client : OAuth.Client} (h : fits client) (subject : Text) :
    (client.restore subject).Agrees L Eq (client.restore subject)
  revoke {client : OAuth.Client} (h : fits client) (subject : Text) :
    (client.revoke subject).Agrees L Eq (client.revoke subject)

namespace Joint

variable {L : Likeness} {same : Text → Text → Prop} {known : Text → Prop}
  {fits : OAuth.Client → Prop} {keeper : Keeper} {a b : Secret.Backend}

theorem storeSecret (joint : Joint L same known fits keeper a b) {service account : Text}
    (hs : service ∈ [keeper.workerService, keeper.passphraseService]) (ha : known account)
    {s t : Option Text} (h : Option.Rel same s t) :
    ((keeper.withSecrets a).storeSecret service account s).Agrees L Eq
      ((keeper.withSecrets b).storeSecret service account t) := by
  cases h with
  | none => exact .pure rfl
  | @some s t h =>
    have emptiness := joint.empty h
    unfold Keeper.storeSecret
    dsimp only
    rw [emptiness]
    split
    · exact .pure rfl
    · exact joint.put hs ha h

theorem persist (joint : Joint L same known fits keeper a b) {s t : Session}
    (h : Session.Matches same s t) (ha : known (secretAccount s)) :
    ((keeper.withSecrets a).persist s).Agrees L Eq ((keeper.withSecrets b).persist t) := by
  have indexed : (keeper.index.put s.subject s.indexRecord).Agrees L Eq
      (keeper.index.put t.subject t.indexRecord) := by
    rw [h.subject_eq, h.indexRecord_eq]
    exact joint.putIndex _ _
  cases h with
  | account h =>
    cases h with
    | intro subject handle h =>
      exact (joint.storeSecret (.tail _ (.head _)) ha h).bind_eq fun _ => indexed
  | worker h =>
    cases h with
    | intro subject handle h =>
      cases h with
      | intro id name created h =>
        exact (joint.putWorker _ _).bind_eq fun _ =>
          .bind_eq (joint.storeSecret (.head _) ha h) fun _ => indexed

open SessionAction (Agrees)

/-- The client is the one that was made, or made alike. -/
theorem client (joint : Joint L same known fits keeper a b) :
    Agrees L fits (fun client other => client = other ∧ fits client) (keeper.withSecrets a).client
      (keeper.withSecrets b).client := by
  intro one other clients
  obtain ⟨rfl, expected⟩ := clients
  cases one with
  | some client =>
    exact .done fun m n alike => ⟨.ok ⟨rfl, expected client rfl⟩, ⟨rfl, expected⟩, alike⟩
  | none =>
    have made : Agrees L fits (fun client other => client = other ∧ fits client) (do
        let made ← keeper.factory keeper.stores
        set (some made)
        return made) (do
        let made ← keeper.factory keeper.stores
        set (some made)
        return made) := by
      refine .bind (.lift joint.makes) fun client other h => ?_
      obtain ⟨rfl, fitting⟩ := h
      have noted : Agrees L fits Eq (set (some client)) (set (some client)) := fun _ _ _ =>
        .done fun _ _ alike => ⟨.ok rfl, ⟨rfl, fun c hc => Option.some.inj hc ▸ fitting⟩, alike⟩
      exact noted.bind_eq fun _ => .pure ⟨rfl, fitting⟩
    exact made none none ⟨rfl, expected⟩

theorem dropTokens (joint : Joint L same known fits keeper a b) (subject : Text) :
    Agrees L fits Eq ((keeper.withSecrets a).dropTokens subject) ((keeper.withSecrets b).dropTokens subject) := by
  refine .bind (V := fun client other => client = other ∧ ∀ c, client = some c → fits c) ?_ ?_
  · refine SessionAction.Agrees.tryCatch ?_ fun failure => ?_
    · refine joint.client.bind fun client other h => .pure ?_
      obtain ⟨rfl, fitting⟩ := h
      exact ⟨rfl, fun c hc => Option.some.inj hc ▸ fitting⟩
    · split
      · exact .pure ⟨rfl, fun _ hc => by cases hc⟩
      · exact .throw _
  · intro made other h
    obtain ⟨rfl, fitting⟩ := h
    cases made with
    | some client => exact .lift (joint.revoke (fitting client rfl) subject)
    | none => exact .lift (joint.removeTokens subject)

theorem drop (joint : Joint L same known fits keeper a b) (session : Session) :
    Agrees L fits Eq ((keeper.withSecrets a).drop session) ((keeper.withSecrets b).drop session) := by
  refine .bind_eq (.lift (joint.removeIndex session.subject)) fun _ => ?_
  cases session with
  | worker session => exact .pure rfl
  | account session =>
    exact .bind_eq (.lift (joint.forget _ _)) fun _ => joint.dropTokens session.subject

theorem dropOthers (joint : Joint L same known fits keeper a b) (subject : Text)
    (sessions : List Session) : Agrees L fits Eq ((keeper.withSecrets a).dropOthers subject sessions)
      ((keeper.withSecrets b).dropOthers subject sessions) := by
  induction sessions with
  | nil => exact .pure rfl
  | cons other rest ih =>
    unfold Keeper.dropOthers
    split
    · exact .bind_eq (.lift (joint.log _ _ _)) fun _ =>
        .bind_eq (joint.drop other) fun _ => ih
    · exact ih

theorem holding (joint : Joint L same known fits keeper a b) {α β : Type} {V : α → β → Prop}
    {x : SessionAction α} {y : SessionAction β} (within : Agrees L fits V x y) :
    Agrees L fits V (keeper.lock.holding lockKey x) (keeper.lock.holding lockKey y) :=
  .holding joint.acquire (fun _ => joint.release) within

theorem replaceBy (joint : Joint L same known fits keeper a b) {s t : Session}
    (h : Session.Matches same s t) (ha : known (secretAccount s)) :
    Agrees L fits Eq ((keeper.withSecrets a).replaceBy s) ((keeper.withSecrets b).replaceBy t) := by
  refine joint.holding (.bind_eq (.lift joint.indexed) fun sessions => ?_)
  rw [h.subject_eq]
  exact .bind_eq (joint.dropOthers _ sessions) fun _ => .lift (joint.persist h ha)

theorem authorizes (joint : Joint L same known fits keeper a b) (handle : Text) :
    Agrees L fits (fun s t => AccountSession.Matches same s t ∧ known s.subject)
      ((keeper.withSecrets a).authorize handle) ((keeper.withSecrets b).authorize handle) := by
  refine joint.client.bind fun client other h => ?_
  obtain ⟨rfl, fitting⟩ := h
  refine .bind (.lift (joint.authorize fitting handle)) fun authorization other h => ?_
  obtain ⟨rfl, there⟩ := h
  refine .bind (.lift (joint.fetch _)) fun s t h => .pure ?_
  exact ⟨.intro _ _ (.some h), there⟩

/-- Whether a login is let through does not depend on the backend. -/
theorem screen (joint : Joint L same known fits keeper a b) (handle : Text) (replace : Bool) :
    Agrees L fits Eq ((keeper.withSecrets a).screen handle replace)
      ((keeper.withSecrets b).screen handle replace) := by
  unfold Keeper.screen
  dsimp only
  split
  · exact .throw_bind _
  · refine .bind_eq (.lift joint.current?) fun found => ?_
    split
    · split
      · exact .throw _
      · exact .pure rfl
    · exact .pure rfl

theorem login (joint : Joint L same known fits keeper a b) (handle : Text) (replace : Bool) :
    Agrees L fits (AccountSession.Matches same) ((keeper.withSecrets a).login handle replace)
      ((keeper.withSecrets b).login handle replace) := by
  rw [login_eq, login_eq]
  refine .bind_eq (joint.screen handle.trim replace) fun _ => ?_
  refine .bind_eq (.lift (joint.log _ _ _)) fun _ => ?_
  refine (joint.authorizes handle.trim).bind fun s t h => ?_
  refine .bind_eq (joint.replaceBy (.account h.1) h.2) fun _ => ?_
  exact .bind_eq (.lift (joint.log _ _ _)) fun _ => .pure h.1

omit [Runtime] in
/-- Whether a worker can be made does not depend on its secret. -/
theorem make_cases (id name s t : Text) (now : Moment) :
    (∃ issues, Worker.make id name s now = .error issues ∧
      Worker.make id name t now = .error issues) ∨
    ∃ name', Worker.make id name s now = .ok ⟨id.trim, name', some s, now⟩ ∧
      Worker.make id name t now = .ok ⟨id.trim, name', some t, now⟩ := by
  have swapped : Worker.make id name t now =
      (Worker.make id name s now).map fun worker => { worker with secret := some t } := by
    unfold Worker.make
    cases Schema.both (Schema.under "worker_id" (Worker.label (.str id)))
      (Schema.under "public_name" (Worker.label (.str name))) <;> rfl
  cases hs : Worker.make id name s now with
  | error issues => exact .inl ⟨issues, rfl, by rw [swapped, hs]; rfl⟩
  | ok worker =>
    obtain ⟨rfl, -⟩ := Worker.make_ok hs
    exact .inr ⟨name.trim, rfl, by rw [swapped, hs]; rfl⟩

theorem registerWorker (joint : Joint L same known fits keeper a b) {id : Text} (name : Text)
    (ha : known id.trim) {s t : Text} (h : same s t) :
    Agrees L fits (WorkerSession.Matches same) ((keeper.withSecrets a).registerWorker id name s)
      ((keeper.withSecrets b).registerWorker id name t) := by
  unfold Keeper.registerWorker
  rw [joint.empty h]
  split
  · exact .throw_bind _
  · refine .bind_eq (.lift joint.clock) fun now => ?_
    refine .bind (V := fun v w => Worker.Matches same v w ∧ known v.id) (.lift ?_)
      fun v w made => ?_
    · rcases make_cases id name s t now with ⟨issues, hs, ht⟩ | ⟨name, hs, ht⟩ <;> rw [hs, ht]
      · exact .throw _
      · exact .pure ⟨.intro _ _ _ (.some h), ha⟩
    · have session : WorkerSession.Matches same (.ofWorker v) (.ofWorker w) := by
        cases made.1 with
        | intro id name created h => exact .intro _ _ (.intro _ _ _ h)
      refine .bind_eq (joint.replaceBy (.worker session) made.2) fun _ => ?_
      exact .bind_eq (.lift (joint.log _ _ _)) fun _ => .pure session

theorem save (joint : Joint L same known fits keeper a b) {s t : Session}
    (h : Session.Matches same s t) (ha : known (secretAccount s)) :
    Agrees L fits Eq ((keeper.withSecrets a).save s) ((keeper.withSecrets b).save t) :=
  joint.holding (.lift (joint.persist h ha))

theorem clear (joint : Joint L same known fits keeper a b) :
    Agrees L fits Eq (keeper.withSecrets a).clear (keeper.withSecrets b).clear := by
  refine .bind_eq (joint.holding ?_) fun cleared => ?_
  · refine .bind_eq (.lift joint.current?) fun session => ?_
    cases session with
    | none => exact .bind_eq (.lift (joint.log _ _ _)) fun _ => .pure rfl
    | some session => exact .bind_eq (joint.drop session) fun _ => .pure rfl
  · split
    · exact .bind_eq (.lift (joint.log _ _ _)) fun _ => .pure rfl
    · exact .pure rfl

end Joint

/-- What is found of a session that is kept, with secrets that go together. -/
inductive CurrentSession.Matches (same : Text → Text → Prop) :
    CurrentSession → CurrentSession → Prop where
  | intro {s t : Session} (tokens : Option Json) (h : Session.Matches same s t) :
    Matches same ⟨s, tokens⟩ ⟨t, tokens⟩

/-- Credentials of one account with secrets that go together. -/
inductive SyncCredentials.Matches (same : Text → Text → Prop) :
    SyncCredentials → SyncCredentials → Prop where
  | intro (account : Text) {s t : Text} (h : same s t) : Matches same ⟨account, s⟩ ⟨account, t⟩

namespace Joint

variable {L : Likeness} {same : Text → Text → Prop} {known : Text → Prop}
  {fits : OAuth.Client → Prop} {keeper : Keeper} {a b : Secret.Backend}

theorem currentSession (joint : Joint L same known fits keeper a b) :
    (keeper.withSecrets a).currentSession.Agrees L (Option.Rel (CurrentSession.Matches same))
      (keeper.withSecrets b).currentSession := by
  refine joint.load.bind fun found found' h => ?_
  cases h with
  | none => exact .pure .none
  | some h =>
    cases h with
    | worker h => exact .pure (.some (.intro none (.worker h)))
    | account h =>
      cases h with
      | intro subject handle h =>
        have looked : (keeper.stores.sessions.get? subject).Agrees L Eq
            (keeper.stores.sessions.get? subject) := joint.tokens.bind_eq fun _ => .pure rfl
        refine looked.bind_eq fun tokens => ?_
        split
        · exact .pure .none
        · exact .pure .none
        · exact .pure (.some (.intro _ (.account (.intro _ _ h))))

theorem agent (joint : Joint L same known fits keeper a b) :
    SessionAction.Agrees L fits Eq (keeper.withSecrets a).agent (keeper.withSecrets b).agent := by
  refine .bind (.lift joint.load) fun found found' h => ?_
  cases h with
  | none => exact .throw _
  | some h =>
    cases h with
    | worker h => exact .throw _
    | account h =>
      cases h with
      | intro subject handle h =>
        refine joint.client.bind fun client other hc => ?_
        obtain ⟨rfl, fitting⟩ := hc
        exact .lift (joint.restore fitting subject)

theorem syncCredentials (joint : Joint L same known fits keeper a b) :
    (keeper.withSecrets a).syncCredentials.Agrees L (SyncCredentials.Matches same)
      (keeper.withSecrets b).syncCredentials := by
  refine joint.load.bind fun found found' h => ?_
  cases h with
  | none => exact .throw _
  | @some s t h =>
    have secrets := h.secret
    dsimp only
    rw [h.handle_eq, h.syncAccount_eq]
    generalize s.secret? = p at secrets ⊢
    generalize t.secret? = q at secrets ⊢
    cases secrets with
    | none => exact .throw _
    | some hs =>
      have emptiness := joint.empty hs
      dsimp only
      rw [emptiness]
      split
      · exact .throw_bind _
      · exact .pure (.intro _ hs)

theorem removeWorker (joint : Joint L same known fits keeper a b) (id : Text) :
    ((keeper.withSecrets a).removeWorker id).Agrees L Eq
      ((keeper.withSecrets b).removeWorker id) := by
  refine .bind_eq (.holding joint.acquire (fun _ => joint.release) ?_) fun existed => ?_
  · refine (joint.isRegistered id).bind_eq fun existed => ?_
    refine (joint.dropWorker id).bind_eq fun _ => (joint.forget _ id).bind_eq fun _ => ?_
    exact (joint.removeIndex _).bind_eq fun _ => .pure rfl
  · split
    · exact (joint.log _ _ _).bind_eq fun _ => .pure rfl
    · exact .pure rfl

end Joint

/-- All that can be asked of a keeper. -/
inductive Call where
  | login (handle : Text) (replace : Bool)
  | registerWorker (id name secret : Text)
  | save (session : Session)
  | load
  | clear
  | currentSession
  | agent
  | syncCredentials
  | listWorkers
  | getWorker (idOrName : Text)
  | removeWorker (id : Text)

/-- What a keeper replies. -/
inductive Reply where
  | done
  | account (session : AccountSession)
  | worker (session : WorkerSession)
  | session (found : Option Session)
  | cleared (found : Option Session)
  | current (found : Option CurrentSession)
  | agent (agent : Json)
  | credentials (credentials : SyncCredentials)
  | workers (workers : List Worker)
  | registered (found : Option Worker)
  | removed (existed : Bool)

/-- Does what is asked for. -/
def respond (keeper : Keeper) : Call → SessionAction Reply
  | .login handle replace => do return .account (← keeper.login handle replace)
  | .registerWorker id name secret => do return .worker (← keeper.registerWorker id name secret)
  | .save session => do
    keeper.save session
    return .done
  | .load => do return .session (← keeper.load)
  | .clear => do return .cleared (← keeper.clear)
  | .currentSession => do return .current (← keeper.currentSession)
  | .agent => do return .agent (← keeper.agent)
  | .syncCredentials => do return .credentials (← keeper.syncCredentials)
  | .listWorkers => do return .workers (← keeper.listWorkers)
  | .getWorker idOrName => do return .registered (← keeper.getWorker idOrName)
  | .removeWorker id => do return .removed (← keeper.removeWorker id)

/-- That the same is asked for, with secrets that go together. -/
inductive Call.Matches (same : Text → Text → Prop) : Call → Call → Prop where
  | registerWorker (id name : Text) {s t : Text} (h : same s t) :
    Matches same (.registerWorker id name s) (.registerWorker id name t)
  | save {s t : Session} (h : Session.Matches same s t) : Matches same (.save s) (.save t)
  | other (call : Call) (worker : ∀ id name secret, call ≠ .registerWorker id name secret)
    (save : ∀ session, call ≠ .save session) : Matches same call call

def Call.IsKnown (known : Text → Prop) : Call → Prop
  | .registerWorker id _ _ => known id.trim
  | .save session => known (secretAccount session)
  | _ => True

/-- That two replies are the same but for secrets, which go together. -/
inductive Reply.Matches (same : Text → Text → Prop) : Reply → Reply → Prop where
  | done : Matches same .done .done
  | account {s t : AccountSession} (h : AccountSession.Matches same s t) :
    Matches same (.account s) (.account t)
  | worker {s t : WorkerSession} (h : WorkerSession.Matches same s t) :
    Matches same (.worker s) (.worker t)
  | session {s t : Option Session} (h : Option.Rel (Session.Matches same) s t) :
    Matches same (.session s) (.session t)
  | cleared (found : Option Session) : Matches same (.cleared found) (.cleared found)
  | current {s t : Option CurrentSession} (h : Option.Rel (CurrentSession.Matches same) s t) :
    Matches same (.current s) (.current t)
  | agent (agent : Json) : Matches same (.agent agent) (.agent agent)
  | credentials {s t : SyncCredentials} (h : SyncCredentials.Matches same s t) :
    Matches same (.credentials s) (.credentials t)
  | workers (workers : List Worker) : Matches same (.workers workers) (.workers workers)
  | registered {v w : Option Worker} (h : Option.Rel (Worker.Matches same) v w) :
    Matches same (.registered v) (.registered w)
  | removed (existed : Bool) : Matches same (.removed existed) (.removed existed)

/-- Keepers that cannot be told apart reply alike to all that can be asked of them. -/
theorem Joint.respond {L : Likeness} {same : Text → Text → Prop} {known : Text → Prop}
    {fits : OAuth.Client → Prop} {keeper : Keeper} {a b : Secret.Backend}
    (joint : Joint L same known fits keeper a b) {call other : Call}
    (h : Call.Matches same call other) (ha : call.IsKnown known) :
    SessionAction.Agrees L fits (Reply.Matches same) ((keeper.withSecrets a).respond call)
      ((keeper.withSecrets b).respond other) := by
  cases h with
  | registerWorker id name h =>
    exact (joint.registerWorker name ha h).bind fun _ _ h => .pure (.worker h)
  | save h => exact (joint.save h ha).bind_eq fun _ => .pure .done
  | other call worker save =>
    cases call with
    | login handle replace => exact (joint.login handle replace).bind fun _ _ h => .pure (.account h)
    | registerWorker id name secret => exact absurd rfl (worker id name secret)
    | save session => exact absurd rfl (save session)
    | load => exact .bind (.lift joint.load) fun _ _ h => .pure (.session h)
    | clear => exact joint.clear.bind_eq fun _ => .pure (.cleared _)
    | currentSession => exact .bind (.lift joint.currentSession) fun _ _ h => .pure (.current h)
    | agent => exact joint.agent.bind_eq fun _ => .pure (.agent _)
    | syncCredentials =>
      exact .bind (.lift joint.syncCredentials) fun _ _ h => .pure (.credentials h)
    | listWorkers => exact .bind_eq (.lift joint.listWorkers) fun _ => .pure (.workers _)
    | getWorker idOrName =>
      exact .bind (.lift (joint.getWorker idOrName)) fun _ _ h => .pure (.registered h)
    | removeWorker id => exact .bind_eq (.lift (joint.removeWorker id)) fun _ => .pure (.removed _)

/-- Two keepers that are made alike, but with other backends, differ in these only. -/
theorem make_agrees {L : Likeness}
    (holder : (Action.ask .processId).Agrees L Eq (Action.ask .processId)) (folder : Path)
    (options : Options) (a b : Secret.Backend) :
    (make folder (options.withSecrets a)).Agrees L
      (fun keeper other => keeper.MadeIn folder (options.withSecrets a) ∧
        other = keeper.withSecrets b) (make folder (options.withSecrets b)) := by
  have lasting (result : Except DurationFault Duration) :
      (ofDuration result).Agrees L Eq (ofDuration result) := by
    cases result with
    | ok duration => exact .pure rfl
    | error fault => exact .throw _
  unfold make
  refine Action.Agrees.bind (V := fun x y => x = a ∧ y = b) (.pure ⟨rfl, rfl⟩) fun x y given => ?_
  obtain ⟨rfl, rfl⟩ := given
  refine (lasting _).bind_eq fun staleAfter => holder.bind_eq fun pid => ?_
  refine (lasting _).bind_eq fun lifetime => .pure ⟨?_, rfl⟩
  exact ⟨rfl, rfl, rfl, rfl, rfl, rfl, rfl⟩

end Keeper

end SessionKeeper
