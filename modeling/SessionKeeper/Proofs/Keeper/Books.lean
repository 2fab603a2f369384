import Mathlib.Data.Set.Insert
import SessionKeeper.Proofs.Keeper.Stored

/-!
# The books of a keeper

The credentials of a keeper lie in four places: the session in the index, the workers, the
secrets in the backend and the token sets. The books tell what is in each of them. Every step
of an operation writes to one place, and so one entry of the books changes with it. Between
operations the books are settled: the passphrase belongs to the session that is current, and
the workers are those with a secret.
-/
namespace SessionKeeper

variable [Runtime]

/-- The subjects under which a store finds token sets. -/
def Keeper.tokenHolders (machine : Machine) (place : Location) : Set Text :=
  {subject | subject ∈ (Record.entriesAt machine place Keeper.tokensName).keys}

namespace Keeper

def markName : String := "lock-cli-session.json"

omit [Runtime] in
theorem fileName?_lockKey : Lock.fileName? lockKey = some markName := rfl

/-- Whether a name is one that only keepers touch. -/
def IsGuarded (name : String) : Prop := IsReserved name ∨ name = markName

omit [Runtime] in
theorem not_isGuarded_tokens (name : String)
    (h : name = tokensName ∨ ∃ k, name = Machine.temporaryName tokensName k) : ¬ IsGuarded name := by
  rintro (reserved | rfl)
  · exact not_isReserved_tokens name h reserved
  · exact not_beside (by decide) (by decide) h

/-- Whether a subject is one of an account: it is joined, and no worker's. -/
def IsAccount (subject : Text) : Prop :=
  subject.IsJoined ∧ subject.startsWith "worker:" = false

end Keeper

/-- That an operation touches nothing that only keepers touch. -/
structure Action.Respects {α : Type} (folder : Path) (place : Location) (action : Action α) :
    Prop where
  confined : action.Confined folder place (¬ Keeper.IsGuarded ·)
  keychain : ∀ machine, Ground machine folder place →
    (action.exec machine).2.keychain = machine.keychain

namespace Action.Respects

variable {α β : Type} {folder : Path} {place : Location}

omit [Runtime] in
theorem pure (a : α) : (Pure.pure a : Action α).Respects folder place :=
  ⟨.of_passive (.pure a), fun _ _ => rfl⟩

omit [Runtime] in
theorem bind {x : Action α} {f : α → Action β} (hx : x.Respects folder place)
    (hf : ∀ a, (f a).Respects folder place) : (x >>= f).Respects folder place := by
  refine ⟨hx.confined.bind fun a => (hf a).confined, fun machine g => ?_⟩
  have only := hx.confined machine g
  have kept := hx.keychain machine g
  rw [exec_bind]
  rcases he : x.exec machine with ⟨failure | a, between⟩ <;> rw [he] at only kept
  · exact kept
  · exact ((hf a).keychain between (g.exec he only)).trans kept

end Action.Respects

/-- That a client authorizes accounts only and keeps the token sets: authorizing adds the one of
the subject, revoking takes it out. What becomes of them when either fails is left open. -/
structure OAuth.Client.IsLoyal (folder : Path) (place : Location) (client : OAuth.Client) :
    Prop where
  authorize : ∀ handle, (client.authorize handle).Respects folder place
  revoke : ∀ subject, (client.revoke subject).Respects folder place
  authorizes : ∀ handle machine authorization after, Ground machine folder place →
    (client.authorize handle).exec machine = (.ok authorization, after) →
      Keeper.IsAccount authorization.subject ∧ Keeper.tokenHolders after place =
        insert authorization.subject (Keeper.tokenHolders machine place)
  revokes : ∀ subject machine after, Ground machine folder place →
    (client.revoke subject).exec machine = (.ok (), after) →
      Keeper.tokenHolders after place = Keeper.tokenHolders machine place \ {subject}

/-- That making a client changes no token sets and makes one of that kind. -/
structure OAuth.Factory.IsLoyal (factory : OAuth.Factory) (stores : OAuth.Stores) (folder : Path)
    (place : Location) : Prop where
  makes : (factory stores).Respects folder place
  tokens : ∀ machine, Ground machine folder place →
    Keeper.tokenHolders ((factory stores).exec machine).2 place = Keeper.tokenHolders machine place
  made : ∀ machine client after, Ground machine folder place →
    (factory stores).exec machine = (.ok client, after) → client.IsLoyal folder place

theorem OAuth.Client.IsLoyal.isApart {folder : Path} {place : Location} {client : OAuth.Client}
    (h : client.IsLoyal folder place) : client.IsApart folder place := by
  have apart (name : String) (hn : ¬ Keeper.IsGuarded name) : ¬ Keeper.IsReserved name :=
    fun reserved => hn (.inl reserved)
  exact ⟨fun handle => (h.authorize handle).confined.mono apart,
    fun subject => (h.revoke subject).confined.mono apart⟩

theorem OAuth.Factory.IsLoyal.isApart {factory : OAuth.Factory} {stores : OAuth.Stores}
    {folder : Path} {place : Location} (h : factory.IsLoyal stores folder place) :
    factory.IsApart stores folder place where
  makes := h.makes.confined.mono fun _ hn reserved => hn (.inl reserved)
  made machine client after g he := (h.made machine client after g he).isApart

namespace Keeper

/-- What is in the places of a keeper: the session in the index, the ids of the workers, the
secrets of workers, the subjects with a passphrase and those with tokens. -/
structure Books where
  current : Option Session
  registered : Set Text
  secrets : Text → Option Text
  owners : Set Text
  tokens : Set Text

/-- That the workers' file has records of these ids, each under its own. -/
def HasWorkers (place : Location) (registered : Set Text) (machine : Machine) : Prop :=
  ∃ entries, Record.Holds machine place workersName entries ∧
    (∀ id, id ∈ registered ↔ id ∈ entries.keys) ∧
    ∀ pair ∈ entries, pair.2.member? "worker_id" = some (.str pair.1)

/-- That the backend has these secrets of workers, and passphrases of these subjects. -/
def HasSecrets (keeper : Keeper) (holds : Machine → Secret.Ledger → Prop)
    (secrets : Text → Option Text) (owners : Set Text) (machine : Machine) : Prop :=
  ∃ ledger, holds machine ledger ∧ ledger keeper.workerService = secrets ∧
    ∀ subject, subject ∈ owners ↔ (ledger keeper.passphraseService subject).isSome

/-- That everything is as the books say, with this node for a marker of the session lock. -/
structure Balanced (keeper : Keeper) (folder : Path) (place : Location)
    (holds : Machine → Secret.Ledger → Prop) (mark : Option Node) (books : Books)
    (machine : Machine) : Prop where
  shows : Shows folder place books.current machine
  workers : HasWorkers place books.registered machine
  secrets : HasSecrets keeper holds books.secrets books.owners machine
  tokens : tokenHolders machine place = books.tokens
  mark : machine.under place markName = mark

/-- A scene where everything is as the books say, with a loyal client. -/
abbrev Keeping (keeper : Keeper) (folder : Path) (place : Location)
    (holds : Machine → Secret.Ledger → Prop) (mark : Option Node) (books : Books) : Scene → Prop :=
  Attended (Balanced keeper folder place holds mark books) (·.IsLoyal folder place)

variable {keeper : Keeper} {folder : Path} {place : Location} {machine after : Machine}
  {holds : Machine → Secret.Ledger → Prop} {mark : Option Node} {books : Books} {scene : Scene}

theorem tokenHolders_of_under
    (h : after.under place tokensName = machine.under place tokensName) :
    tokenHolders after place = tokenHolders machine place := by
  rw [tokenHolders, tokenHolders, Record.entriesAt_of_under h]

theorem HasWorkers.of_under {registered : Set Text} (h : HasWorkers place registered machine)
    (same : after.under place workersName = machine.under place workersName) :
    HasWorkers place registered after := by
  obtain ⟨entries, held, rest⟩ := h
  exact ⟨entries, held.of_under same, rest⟩

omit [Runtime] in
theorem HasSecrets.of_under (own : keeper.StoresIn folder place holds)
    {secrets : Text → Option Text} {owners : Set Text}
    (h : HasSecrets keeper holds secrets owners machine)
    (vault : after.under place Secret.Vault.fileName = machine.under place Secret.Vault.fileName)
    (keychain : after.keychain = machine.keychain) : HasSecrets keeper holds secrets owners after := by
  obtain ⟨ledger, held, rest⟩ := h
  exact ⟨ledger, own.secrets.same held vault keychain, rest⟩

omit [Runtime] in
theorem Shows.kept {current : Option Session} (h : Shows folder place current machine)
    (orderly : Orderly folder place after)
    (index : after.under place indexName = machine.under place indexName)
    (now : after.now = machine.now) : Shows folder place current after :=
  ⟨orderly, h.written.of_under index, h.sound, now ▸ h.clock⟩

theorem tokens_respects (next : Assoc Text Json → Action Unit) (h : ∀ entries,
    (∃ entries', next entries = Record.Store.replace ⟨folder.child tokensName⟩ entries') ∨
      next entries = pure ()) :
    (Record.Store.entries ⟨folder.child tokensName⟩ >>= next : Action Unit).Respects folder place := by
  have hn : Tree.IsFileName tokensName := ⟨by decide, by decide⟩
  refine ⟨Action.Confined.mono (.bind (.of_passive (Record.Store.entries_passive _)) fun entries => ?_)
    not_isGuarded_tokens, fun machine g => Record.Store.entries_bind_keychain g hn next h⟩
  rcases h entries with ⟨entries', he⟩ | he <;> rw [he]
  · exact Record.Store.replace_confined hn entries'
  · exact .pure _

theorem tokens_remove_respects (subject : Text) :
    (Record.Store.remove ⟨folder.child tokensName⟩ subject).Respects folder place := by
  refine tokens_respects _ fun entries => ?_
  split_ifs
  · exact .inl ⟨_, rfl⟩
  · exact .inr rfl

theorem tokens_put_respects (subject : Text) (value : Json) :
    (Record.Store.put ⟨folder.child tokensName⟩ subject value).Respects folder place :=
  tokens_respects _ fun _ => .inl ⟨_, rfl⟩

theorem tokens_remove_yields (g : Ground machine folder place) (subject : Text) :
    (Record.Store.remove ⟨folder.child tokensName⟩ subject).Yields machine fun _ after =>
      tokenHolders after place = tokenHolders machine place \ {subject} := by
  refine (Record.Store.remove_yields g ⟨by decide, by decide⟩ subject).mono fun _ after wrote => ?_
  rw [tokenHolders, wrote.entries]
  exact Set.ext fun other => Assoc.mem_keys_remove _ subject other

theorem tokens_put_yields (g : Ground machine folder place) {subject : Text}
    (joined : subject.IsJoined) {value : Json} (regular : value.IsRegular Runtime.reads) :
    (Record.Store.put ⟨folder.child tokensName⟩ subject value).Yields machine fun _ after =>
      tokenHolders after place = insert subject (tokenHolders machine place) := by
  refine (Record.Store.put_yields g ⟨by decide, by decide⟩ joined regular).mono
    fun _ after wrote => ?_
  rw [tokenHolders, wrote.entries]
  exact Set.ext fun other => Assoc.mem_keys_put _ subject other value

namespace Balanced

theorem ground (h : Balanced keeper folder place holds mark books machine) :
    Ground machine folder place := h.shows.orderly.ground

theorem elsewhere (own : keeper.StoresIn folder place holds)
    (h : Balanced keeper folder place holds mark books machine) (ground : Ground after folder place)
    (only : ChangedOnly place (¬ IsReserved ·) machine after)
    (keychain : after.keychain = machine.keychain) (now : after.now = machine.now) :
    Balanced keeper folder place holds (after.under place markName)
      { books with tokens := tokenHolders after place } after := by
  have same (name : String) (hn : name ∈ ownNames) :
      after.under place name = machine.under place name :=
    only.under (not_not.mpr (isReserved_of_mem hn))
  exact {
    shows := h.shows.kept (h.shows.orderly.of_changedOnly ground only) (same _ (by decide)) now
    workers := h.workers.of_under (same _ (by decide))
    secrets := h.secrets.of_under own (same _ (by decide)) keychain
    tokens := rfl
    mark := rfl }

/-- What an operation that respects the keeper's files changes is the token sets. -/
theorem respects {α : Type} {action : Action α} (own : keeper.StoresIn folder place holds)
    (h : Balanced keeper folder place holds mark books machine)
    (respects : action.Respects folder place) :
    Balanced keeper folder place holds mark
      { books with tokens := tokenHolders (action.exec machine).2 place } (action.exec machine).2 := by
  have only := respects.confined machine h.ground
  have ground : Ground (action.exec machine).2 folder place := h.ground.exec rfl only
  have balanced := h.elsewhere own ground
    (only.mono fun name hn reserved => hn (.inl reserved)) (respects.keychain machine h.ground)
    (Machine.SameCircumstances.of_exec action machine).now
  rwa [only.under (not_not.mpr (.inr rfl)), h.mark] at balanced

theorem quiet (own : keeper.StoresIn folder place holds)
    (h : Balanced keeper folder place holds mark books machine) (quiet : machine.Quiet after) :
    Balanced keeper folder place holds mark books after := by
  have balanced := h.elsewhere own (h.ground.of_quiet quiet) (.of_tree quiet.tree) quiet.keychain
    quiet.circumstances.now
  rwa [quiet.under, h.mark, tokenHolders_of_under (quiet.under place _), h.tokens] at balanced

/-- The books stay as time passes. -/
theorem waited (own : keeper.StoresIn folder place holds)
    (h : Balanced keeper folder place holds mark books machine) {now : Moment} (sound : now.IsSound) :
    Balanced keeper folder place holds mark books { machine with now } where
  shows := {
    orderly := {
      ground := ⟨h.ground.leads, h.ground.stands, h.ground.numbered⟩
      writable := fun name hn =>
        ⟨(h.shows.orderly.writable name hn).free, (h.shows.orderly.writable name hn).plain⟩ }
    written := h.shows.written
    sound := h.shows.sound
    clock := sound }
  workers := h.workers
  secrets := h.secrets.of_under own rfl rfl
  tokens := h.tokens
  mark := h.mark

theorem index_written (own : keeper.StoresIn folder place holds)
    (h : Balanced keeper folder place holds mark books machine) {shown : Option Session}
    (written : IndexWritten folder place shown machine after) :
    Balanced keeper folder place holds mark { books with current := shown } after where
  shows := written.shows
  workers := h.workers.of_under (written.only.under (by decide))
  secrets := h.secrets.of_under own (written.only.under (by decide)) written.keychain
  tokens := (tokenHolders_of_under (written.only.under (by decide))).trans h.tokens
  mark := (written.only.under (by decide)).trans h.mark

theorem workers_written (own : keeper.StoresIn folder place holds)
    (h : Balanced keeper folder place holds mark books machine) {action : Action Unit}
    {outcome : Except Failure Unit} (he : action.exec machine = (outcome, after))
    (touched : Record.Touched place workersName machine after) {registered : Set Text}
    (workers : HasWorkers place registered after) :
    Balanced keeper folder place holds mark { books with registered } after where
  shows := h.shows.kept
    (h.shows.orderly.of_touched (h.ground.exec he touched.only) (by decide) touched)
    (touched.only.under (by decide)) (Machine.SameCircumstances.of_exec_eq he).now
  workers := workers
  secrets := h.secrets.of_under own (touched.only.under (by decide)) touched.keychain
  tokens := (tokenHolders_of_under (touched.only.under (by decide))).trans h.tokens
  mark := (touched.only.under (by decide)).trans h.mark

theorem secrets_written (h : Balanced keeper folder place holds mark books machine)
    {action : Action Unit} {outcome : Except Failure Unit}
    (he : action.exec machine = (outcome, after)) (stirred : Secret.Stirred place machine after)
    {secrets : Text → Option Text} {owners : Set Text}
    (kept : HasSecrets keeper holds secrets owners after) :
    Balanced keeper folder place holds mark { books with secrets, owners } after where
  shows := h.shows.kept
    (h.shows.orderly.of_written (h.ground.exec he stirred.only) (by decide) stirred.only stirred.writable)
    (stirred.only.under (by decide)) (Machine.SameCircumstances.of_exec_eq he).now
  workers := h.workers.of_under (stirred.only.under (by decide))
  secrets := kept
  tokens := (tokenHolders_of_under (stirred.only.under (by decide))).trans h.tokens
  mark := (stirred.only.under (by decide)).trans h.mark

end Balanced

theorem index_remove_books (own : keeper.StoresIn folder place holds)
    (h : Balanced keeper folder place holds mark books machine) (subject : Text) :
    ∃ after, (keeper.index.remove subject).exec machine = (.ok (), after) ∧
      Balanced keeper folder place holds mark { books with
        current := books.current.filter fun session => session.subject.rejoin ≠ subject } after := by
  obtain ⟨after, he, written⟩ := index_remove_exec own.index h.shows subject
  exact ⟨after, he, h.index_written own written⟩

theorem index_put_books (own : keeper.StoresIn folder place holds)
    (h : Balanced keeper folder place holds mark books machine) {session : Session}
    (sound : session.IsSound)
    (room : ∀ other, books.current = some other → other.subject.rejoin = session.subject) :
    ∃ after, (keeper.index.put session.subject session.indexRecord).exec machine = (.ok (), after) ∧
      Balanced keeper folder place holds mark { books with current := some session } after := by
  obtain ⟨after, he, written⟩ := index_put_exec own.index h.shows sound room
  exact ⟨after, he, h.index_written own written⟩

theorem workers_put_books (own : keeper.StoresIn folder place holds)
    (h : Balanced keeper folder place holds mark books machine) {worker : Worker}
    (joined : worker.id.IsJoined) :
    ∃ after, (keeper.workers.put worker.id worker.publicRecord).exec machine = (.ok (), after) ∧
      Balanced keeper folder place holds mark
        { books with registered := insert worker.id books.registered } after := by
  obtain ⟨entries, held, keys, named⟩ := h.workers
  have nodup := ((Json.isRegular_obj entries).mp held.isRegular).1
  have fits : worker.publicRecord.fits 1 = true := rfl
  obtain ⟨after, he, touched, stored⟩ := Record.Store.put_of_holds h.ground
    (isRecordName_of_mem _ (by decide)) (h.shows.orderly.writable _ (by decide)) held worker.id
    (Json.fits_roomy fits (by decide)) worker.isCanonical_publicRecord
  rw [← own.workers] at he
  rw [Text.rejoin_of_isJoined joined] at stored
  refine ⟨after, he, h.workers_written own he touched ⟨_, stored, fun id => ?_, fun pair hp => ?_⟩⟩
  · rw [Assoc.mem_keys_put, Set.mem_insert_iff, keys id]
  · rcases Assoc.mem_put nodup _ _ pair hp with rfl | ⟨hm, -⟩
    · rw [Worker.reread_publicRecord, Text.rejoin_of_isJoined joined]
      rfl
    · exact named pair hm

theorem workers_remove_books (own : keeper.StoresIn folder place holds)
    (h : Balanced keeper folder place holds mark books machine) (id : Text) :
    ∃ after, (keeper.workers.remove id).exec machine = (.ok (), after) ∧
      Balanced keeper folder place holds mark
        { books with registered := books.registered \ {id} } after := by
  obtain ⟨entries, held, keys, named⟩ := h.workers
  obtain ⟨after, he, touched, left⟩ := Record.Store.remove_of_holds h.ground
    (isRecordName_of_mem workersName (by decide)) (h.shows.orderly.writable _ (by decide)) held id
  rw [← own.workers] at he
  refine ⟨after, he, h.workers_written own he touched ⟨_, left, fun other => ?_, fun pair hp => ?_⟩⟩
  · rw [Assoc.mem_keys_remove, Set.mem_sdiff, Set.mem_singleton_iff, keys other]
  · exact named pair (Assoc.mem_remove hp)

omit [Runtime] in
theorem workerService_ne (keeper : Keeper) : keeper.workerService ≠ keeper.passphraseService := by
  have worker : keeper.workerService.getLast? = some (.char 'r') := by
    rw [workerService, List.getLast?_append]
    rfl
  have passphrase : keeper.passphraseService.getLast? = some (.char 'e') := by
    rw [passphraseService, List.getLast?_append]
    rfl
  intro h
  rw [h, passphrase] at worker
  exact absurd worker (by decide)

theorem put_secret_books (own : keeper.StoresIn folder place holds)
    (h : Balanced keeper folder place holds mark books machine) {id secret : Text}
    (joined : id.IsJoined ∧ secret.IsJoined) :
    ∃ after, (keeper.secrets.put keeper.workerService id secret).exec machine = (.ok (), after) ∧
      Balanced keeper folder place holds mark
        { books with secrets := Function.update books.secrets id (some secret) } after := by
  obtain ⟨ledger, held, known, owners⟩ := h.secrets
  obtain ⟨stored, after, he, stirred, put, told⟩ := own.secrets.put h.ground
    (h.shows.orderly.writable _ (by decide)) held ⟨own.isJoined_workerService, joined.1⟩ secret
  refine ⟨after, he, h.secrets_written he stirred ⟨_, put, ?_, fun subject => ?_⟩⟩
  · rw [told joined.2, ← known]
    funext other
    rw [Function.update_apply, Secret.Ledger.put]
    simp
  · rw [Secret.Ledger.put_of_ne _ keeper.workerService_ne.symm]
    exact owners subject

theorem put_passphrase_books (own : keeper.StoresIn folder place holds)
    (h : Balanced keeper folder place holds mark books machine) {subject : Text}
    (joined : subject.IsJoined) (passphrase : Text) :
    ∃ after, (keeper.secrets.put keeper.passphraseService subject passphrase).exec machine =
        (.ok (), after) ∧
      Balanced keeper folder place holds mark
        { books with owners := insert subject books.owners } after := by
  obtain ⟨ledger, held, known, owners⟩ := h.secrets
  obtain ⟨stored, after, he, stirred, put, -⟩ := own.secrets.put h.ground
    (h.shows.orderly.writable _ (by decide)) held ⟨own.isJoined_passphraseService, joined⟩ passphrase
  refine ⟨after, he, h.secrets_written he stirred ⟨_, put, ?_, fun other => ?_⟩⟩
  · funext id
    rw [Secret.Ledger.put_of_ne _ keeper.workerService_ne, known]
  · rw [Set.mem_insert_iff, owners other, Secret.Ledger.put]
    by_cases same : other = subject <;> simp [same]

theorem forget_secret_books (own : keeper.StoresIn folder place holds)
    (h : Balanced keeper folder place holds mark books machine) (id : Text) :
    ∃ after, (keeper.secrets.remove keeper.workerService id).exec machine = (.ok (), after) ∧
      Balanced keeper folder place holds mark
        { books with secrets := Function.update books.secrets id none } after := by
  obtain ⟨ledger, held, known, owners⟩ := h.secrets
  obtain ⟨after, he, stirred, left⟩ := own.secrets.remove h.ground
    (h.shows.orderly.writable _ (by decide)) held keeper.workerService id
  refine ⟨after, he, h.secrets_written he stirred ⟨_, left, ?_, fun subject => ?_⟩⟩
  · rw [← known]
    funext other
    rw [Function.update_apply, Secret.Ledger.remove]
    simp
  · rw [Secret.Ledger.remove_of_ne _ keeper.workerService_ne.symm]
    exact owners subject

theorem forget_passphrase_books (own : keeper.StoresIn folder place holds)
    (h : Balanced keeper folder place holds mark books machine) (subject : Text) :
    ∃ after, (keeper.secrets.remove keeper.passphraseService subject).exec machine =
        (.ok (), after) ∧
      Balanced keeper folder place holds mark
        { books with owners := books.owners \ {subject} } after := by
  obtain ⟨ledger, held, known, owners⟩ := h.secrets
  obtain ⟨after, he, stirred, left⟩ := own.secrets.remove h.ground
    (h.shows.orderly.writable _ (by decide)) held keeper.passphraseService subject
  refine ⟨after, he, h.secrets_written he stirred ⟨_, left, ?_, fun other => ?_⟩⟩
  · funext id
    rw [Secret.Ledger.remove_of_ne _ keeper.workerService_ne, known]
  · rw [Set.mem_sdiff, Set.mem_singleton_iff, owners other, Secret.Ledger.remove]
    by_cases same : other = subject <;> simp [same]

/-- Whatever was done to the marker of the session lock, the books are what they were. -/
theorem Balanced.marked {α : Type} {action : Action α} (own : keeper.StoresIn folder place holds)
    (h : Balanced keeper folder place holds mark books machine)
    (only : ChangedOnly place (· = markName) machine (action.exec machine).2)
    (keychain : (action.exec machine).2.keychain = machine.keychain) :
    Balanced keeper folder place holds ((action.exec machine).2.under place markName) books
      (action.exec machine).2 := by
  have ground : Ground (action.exec machine).2 folder place := h.ground.exec rfl only
  have balanced := h.elsewhere own ground
    (only.mono fun name hn => hn ▸ not_isReserved_marker.2) keychain
    (Machine.SameCircumstances.of_exec action machine).now
  rwa [tokenHolders_of_under (only.under (by decide)), h.tokens] at balanced

/-- Taking the session lock leaves its marker, or fails; the books stay. -/
theorem acquire_books (own : keeper.StoresIn folder place holds)
    (h : Balanced keeper folder place holds mark books machine) :
    (keeper.lock.acquire lockKey).Ends machine fun outcome after =>
      Balanced keeper folder place holds (after.under place markName) books after ∧
        ∀ marker, outcome = .ok marker →
          Lock.Stands after place markName marker ∧ marker.key = lockKey := by
  refine ⟨h.marked own (Lock.acquire_confined own.lock fileName?_lockKey not_isReserved_marker.1
    machine h.ground) (Lock.acquire_keychain _ _ machine), fun marker ho => ?_⟩
  have taken := Lock.acquire_yields own.lock h.ground fileName?_lockKey not_isReserved_marker.1
    marker _ (Prod.ext ho rfl)
  exact ⟨taken.stands, taken.key⟩

/-- While its marker stands, giving back the session lock returns; the books stay. -/
theorem release_books (own : keeper.StoresIn folder place holds)
    (h : Balanced keeper folder place holds mark books machine) {marker : Lock.Marker}
    (stands : Lock.Stands machine place markName marker) (key : marker.key = lockKey) :
    (keeper.lock.release marker).Ends machine fun outcome after => outcome = .ok () ∧
      Balanced keeper folder place holds (after.under place markName) books after := by
  obtain ⟨after, he, only, keychain⟩ := Lock.release_returns own.lock h.ground
    (key ▸ fileName?_lockKey) not_isReserved_marker.1 stands
  have released : ((keeper.lock.release marker).exec machine).2 = after := by rw [he]
  have balanced := h.marked own (released.symm ▸ only) (released.symm ▸ keychain)
  rw [he] at balanced
  exact .of_exec he ⟨rfl, balanced⟩

end Keeper

end SessionKeeper
